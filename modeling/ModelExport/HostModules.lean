import ModelExport.Assoc
import ModelExport.Refusal

/-!
# HostModules — the modules a host has at hand

A module is asked for by its name.  The host has its own modules and those it was set up with
(`HostModules.atHand`); one of them also answers to a second name.
-/

namespace ModelExport.HostModules

def atHand : List String := [
  "__future__", "abc", "aifc", "argparse", "array", "ast", "asynchat", "asyncio", "asyncore",
  "atexit", "audioop", "base64", "bdb", "binascii", "bisect", "builtins", "bz2", "cProfile",
  "calendar", "cgi", "cgitb", "chunk", "cmath", "cmd", "code", "codecs", "codeop", "collections",
  "collections.abc", "colorsys", "compileall", "concurrent", "concurrent.futures", "configparser",
  "contextlib", "contextvars", "copy", "copyreg", "crypt", "csv", "ctypes", "ctypes.util", "curses",
  "dataclasses", "datetime", "dbm", "decimal", "difflib", "dis", "distutils", "doctest", "email",
  "email.message", "email.mime.text", "email.parser", "email.utils", "encodings", "ensurepip",
  "enum", "errno", "faulthandler", "fcntl", "filecmp", "fileinput", "fnmatch", "fractions",
  "ftplib", "functools", "gc", "genericpath", "getopt", "getpass", "gettext", "glob", "graphlib",
  "grp", "gzip", "hashlib", "heapq", "hmac", "html", "html.entities", "html.parser", "http",
  "http.client", "http.cookies", "http.server", "imaplib", "imghdr", "imp", "importlib",
  "importlib.abc", "importlib.machinery", "importlib.metadata", "importlib.resources",
  "importlib.util", "inspect", "io", "ipaddress", "itertools", "json", "json.decoder",
  "json.encoder", "json.scanner", "json.tool", "keyword", "lib2to3", "linecache", "locale",
  "logging", "logging.config", "logging.handlers", "lzma", "mailbox", "mailcap", "marshal", "math",
  "mimetypes", "mmap", "modulefinder", "multiprocessing", "multiprocessing.connection",
  "multiprocessing.managers", "multiprocessing.pool", "multiprocessing.shared_memory", "netrc",
  "nntplib", "ntpath", "nturl2path", "numbers", "numpy", "onnx", "opcode", "operator", "optparse",
  "os", "ossaudiodev", "paddle", "paddle.fluid", "paddle.fluid.core", "paddle.fluid.framework",
  "paddle.nn", "pathlib", "pdb", "pickle", "pickletools", "pipes", "pkgutil", "platform",
  "plistlib", "poplib", "posix", "posixpath", "pprint", "profile", "pstats", "pty", "pwd",
  "py_compile", "pyclbr", "pydoc", "pydoc_data", "pyexpat", "queue", "quopri", "random", "re",
  "readline", "reprlib", "resource", "rlcompleter", "runpy", "sched", "secrets", "select",
  "selectors", "shelve", "shlex", "shutil", "signal", "site", "six", "smtpd", "smtplib", "sndhdr",
  "socket", "socketserver", "spwd", "sqlite3", "sre_compile", "sre_constants", "sre_parse", "ssl",
  "stat", "statistics", "string", "stringprep", "struct", "subprocess", "sunau", "symtable", "sys",
  "sysconfig", "syslog", "tabnanny", "tarfile", "telnetlib", "tempfile", "termios", "textwrap",
  "threading", "time", "timeit", "tkinter", "token", "tokenize", "tomllib", "trace", "traceback",
  "tracemalloc", "tty", "turtle", "types", "typing", "unicodedata", "unittest", "unittest.case",
  "unittest.mock", "urllib", "urllib.error", "urllib.parse", "urllib.request", "urllib.response",
  "uu", "uuid", "venv", "warnings", "wave", "weakref", "webbrowser", "wsgiref", "wsgiref.util",
  "xdrlib", "xml", "xml.dom", "xml.dom.minidom", "xml.etree", "xml.etree.ElementTree",
  "xml.parsers.expat", "xml.sax", "xmlrpc", "xmlrpc.client", "xmlrpc.server", "zipapp", "zipfile",
  "zipimport", "zlib", "zoneinfo"]

def secondNames : List (String × String) := [("os.path", "posixpath")]

/-- **Looks for a module**, and gives back its own name.  What is no text cannot be looked up, an empty
name names nothing, and one that begins with a point has no place to start from. -/
def find : Value → Except Fault String
  | .str name =>
    if name.isEmpty then .error (.slip .badValue)
    else if name.startsWith "." then .error (.slip .wrongKind)
    else if atHand.contains name then .ok name
    else match Assoc.get? secondNames name with
      | some own => .ok own
      | none => .error (.refusal (.missingModule name))
  | _ => .error (.slip .missingMember)

end ModelExport.HostModules
