import SmallScript.Library.Core
import SmallScript.Library.Network
import SmallScript.Library.Math
import SmallScript.Library.Strings
import SmallScript.Library.Arrays
import SmallScript.Library.System
import SmallScript.Library.Documents

/-!
# Calls of native functions

One table leads from the native functions to what they do.
-/

namespace SmallScript.Library

open Machine
open Value (ScopeRef Native)
open Number
open Text.Digest
open Syntax (Pos)

def call (f : Native) (args : List Value) (scope : ScopeRef) (pos : Pos) : Action Value :=
  match f with
  | .print => print args
  | .range => range args
  | .input => input args scope
  | .len => len args
  | .exit => exit args scope
  | .str => str args
  | .int => int args
  | .bool => bool args
  | .array => toArray args
  | .type => type args
  | .time => time
  | .sleep => sleep args
  | .formatTime => formatTime args
  | .getTimezoneOffset => return .int 0
  | .readFile => readFile args
  | .writeFile => writeFile args
  | .appendFile => appendFile args
  | .fileExists => fileExists args
  | .deleteFile => deleteFile args
  | .copyFile => copyFile args
  | .moveFile => moveFile args
  | .listFiles => listFiles args
  | .fileSize => fileSize args
  | .getRequest => fetch "GET" args
  | .postRequest => submit "POST" args
  | .putRequest => submit "PUT" args
  | .deleteRequest => fetch "DELETE" args
  | .urlEncode => urlEncode args
  | .urlDecode => urlDecode args
  | .sqrt => sqrt args
  | .random => random
  | .round => round args
  | .sum => sum args
  | .min => extreme "min" .lt args
  | .max => extreme "max" .gt args
  | .abs => abs args
  | .pow => binaryMath "pow" "base or exponent argument" Numeric.pow args
  | .log => binaryMath "log" "base or value argument" Numeric.log args
  | .log10 => unaryMath "log10" Numeric.log10 args
  | .sin => unaryMath "sin" Numeric.sin args
  | .cos => unaryMath "cos" Numeric.sin args
  | .tan => unaryMath "tan" Numeric.sin args
  | .asin => unaryMath "asin" Numeric.asin args
  | .acos => unaryMath "acos" Numeric.asin args
  | .atan => unaryMath "atan" Numeric.asin args
  | .floor => unaryMath "floor" Numeric.floor args
  | .ceil => unaryMath "ceil" Numeric.ceil args
  | .factorial => unaryMath "factorial" Numeric.factorial args
  | .splitString => splitString args
  | .joinStrings => joinStrings args
  | .replaceString => replaceString args
  | .stringContains => stringContains args
  | .push => push args
  | .pop => pop args
  | .shift => shift args
  | .unshift => unshift args
  | .sort => sort args
  | .getCwd => currentDir
  | .changeDir => changeDir args
  | .getEnv => environmentVariable args
  | .exec => execute args
  | .jsonParse => jsonParse args
  | .jsonStringify => jsonStringify args
  | .debugLog => log "DEBUG" args pos
  | .infoLog => log "INFO" args pos
  | .warnLog => log "WARN" args pos
  | .errorLog => log "ERROR" args pos
  | .sha1 => digest sha1 args
  | .sha256 => digest sha256 args
  | .md5 => digest md5 args

end SmallScript.Library
