import SmallScript.Number.Basic
import SmallScript.Data.Table

/-!
# Native functions and modules

The functions that the language brings along. Ten of them are in every global scope, the others are
members of modules.
-/

namespace SmallScript.Value

open Number

inductive Native where
  | print | range | input | len | exit | str | int | bool | array | type
  | time | sleep | formatTime | getTimezoneOffset
  | readFile | writeFile | appendFile | fileExists | deleteFile | copyFile | moveFile | listFiles
  | fileSize
  | getRequest | postRequest | putRequest | deleteRequest | urlEncode | urlDecode
  | sqrt | random | round | sum | min | max | abs | pow | log | log10 | sin | cos | tan | asin
  | acos | atan | floor | ceil | factorial
  | splitString | joinStrings | replaceString | stringContains
  | push | pop | shift | unshift | sort
  | getCwd | changeDir | getEnv | exec
  | jsonParse | jsonStringify
  | debugLog | infoLog | warnLog | errorLog
  | sha1 | sha256 | md5
deriving DecidableEq, Repr, Inhabited

def Native.names : List (Native × String) := [
  (.print, "print"), (.range, "range"), (.input, "input"), (.len, "len"), (.exit, "exit"),
  (.str, "str"), (.int, "int"), (.bool, "bool"), (.array, "array"), (.type, "type"),
  (.time, "time"), (.sleep, "sleep"), (.formatTime, "formatTime"),
  (.getTimezoneOffset, "getTimezoneOffset"),
  (.readFile, "readFile"), (.writeFile, "writeFile"), (.appendFile, "appendFile"),
  (.fileExists, "fileExists"), (.deleteFile, "deleteFile"), (.copyFile, "copyFile"),
  (.moveFile, "moveFile"), (.listFiles, "listFiles"), (.fileSize, "fileSize"),
  (.getRequest, "getRequest"), (.postRequest, "postRequest"), (.putRequest, "putRequest"),
  (.deleteRequest, "deleteRequest"), (.urlEncode, "urlEncode"), (.urlDecode, "urlDecode"),
  (.sqrt, "sqrt"), (.random, "random"), (.round, "round"), (.sum, "sum"), (.min, "min"),
  (.max, "max"), (.abs, "abs"), (.pow, "pow"), (.log, "log"), (.log10, "log10"), (.sin, "sin"),
  (.cos, "cos"), (.tan, "tan"), (.asin, "asin"), (.acos, "acos"), (.atan, "atan"),
  (.floor, "floor"), (.ceil, "ceil"), (.factorial, "factorial"),
  (.splitString, "splitString"), (.joinStrings, "joinStrings"),
  (.replaceString, "replaceString"), (.stringContains, "stringContains"),
  (.push, "push"), (.pop, "pop"), (.shift, "shift"), (.unshift, "unshift"), (.sort, "sort"),
  (.getCwd, "getCwd"), (.changeDir, "changeDir"), (.getEnv, "getEnv"), (.exec, "exec"),
  (.jsonParse, "jsonParse"), (.jsonStringify, "jsonStringify"),
  (.debugLog, "debugLog"), (.infoLog, "infoLog"), (.warnLog, "warnLog"), (.errorLog, "errorLog"),
  (.sha1, "sha1"), (.sha256, "sha256"), (.md5, "md5")]

def Native.name (f : Native) : String := ((names.find? (·.1 == f)).map (·.2)).getD ""

def Native.ofName? (name : String) : Option Native := (names.find? (·.2 == name)).map (·.1)

inductive ModuleItem where
  | function (f : Native)
  | number (x : Float)

def modules : List (String × List (String × ModuleItem)) := [
  ("file", [
    ("read", .function .readFile), ("write", .function .writeFile),
    ("append", .function .appendFile), ("exists", .function .fileExists),
    ("delete", .function .deleteFile), ("copy", .function .copyFile),
    ("move", .function .moveFile), ("list", .function .listFiles), ("size", .function .fileSize)]),
  ("http", [
    ("get", .function .getRequest), ("post", .function .postRequest),
    ("put", .function .putRequest), ("delete", .function .deleteRequest),
    ("urlencode", .function .urlEncode), ("urldecode", .function .urlDecode)]),
  ("math", [
    ("sum", .function .sum), ("min", .function .min), ("max", .function .max),
    ("round", .function .round), ("pi", .number 3.141592653589793), ("sqrt", .function .sqrt),
    ("random", .function .random), ("abs", .function .abs), ("pow", .function .pow),
    ("log", .function .log), ("log10", .function .log10), ("sin", .function .sin),
    ("cos", .function .cos), ("tan", .function .tan), ("asin", .function .asin),
    ("acos", .function .acos), ("atan", .function .atan), ("floor", .function .floor),
    ("ceil", .function .ceil), ("e", .number 2.718281828459045),
    ("factorial", .function .factorial)]),
  ("time", [
    ("time", .function .time), ("sleep", .function .sleep), ("format", .function .formatTime),
    ("timezone_offset", .function .getTimezoneOffset)]),
  ("string", [
    ("split", .function .splitString), ("join", .function .joinStrings),
    ("replace", .function .replaceString), ("contains", .function .stringContains)]),
  ("array", [
    ("push", .function .push), ("pop", .function .pop), ("shift", .function .shift),
    ("unshift", .function .unshift), ("sort", .function .sort)]),
  ("os", [
    ("cwd", .function .getCwd), ("chdir", .function .changeDir), ("env", .function .getEnv),
    ("exec", .function .exec)]),
  ("json", [("parse", .function .jsonParse), ("stringify", .function .jsonStringify)]),
  ("logging", [
    ("info", .function .infoLog), ("warn", .function .warnLog), ("error", .function .errorLog)]),
  ("crypto", [("sha1", .function .sha1), ("sha256", .function .sha256), ("md5", .function .md5)])]

/-- The modules that reach outside the program; they are closed to a program without file access. -/
def guardedModules : List String := ["file", "os"]

def globalNatives : List Native :=
  [.print, .input, .len, .exit, .str, .int, .bool, .array, .type, .range]

end SmallScript.Value
