/-!
# Documents of the wrong kind

Documents come from outside and may be of any kind. An operation that a kind does not have fails,
and the message names the kind.
-/

namespace SmallScript.Data

/-- An operation on a document of the wrong kind, given by name. -/
inductive KindFault where
  | search (kind : String)
  /-- a walk through its parts -/
  | walk (kind : String)
  /-- a look-up of a part -/
  | part (kind : String)
  /-- a look-up in a list by something other than a number -/
  | listIndex (kind : String)
  /-- a look-up by name in a text -/
  | textByName
  | setPart (kind : String)
  | dropPart (kind : String)
  | asKey (kind : String)
  | asText (kind : String)
  | asInteger (kind : String)
  /-- a list of texts with an item that is none -/
  | joinItem (index : Nat) (kind : String)
  /-- a list of texts that is no list -/
  | joinNone
  /-- a manifest whose tables do not fit together -/
  | unreadable
deriving DecidableEq, Repr

def KindFault.message : KindFault → String
  | .search kind => s!"argument of type '{kind}' is not iterable"
  | .walk kind => s!"'{kind}' object is not iterable"
  | .part kind => s!"'{kind}' object is not subscriptable"
  | .listIndex kind => s!"list indices must be integers or slices, not {kind}"
  | .textByName => "string indices must be integers, not 'str'"
  | .setPart kind => s!"'{kind}' object does not support item assignment"
  | .dropPart kind => s!"'{kind}' object doesn't support item deletion"
  | .asKey kind => s!"unhashable type: '{kind}'"
  | .asText kind => s!"expected string or bytes-like object, got '{kind}'"
  | .asInteger kind =>
    s!"int() argument must be a string, a bytes-like object or a real number, not '{kind}'"
  | .joinItem i kind => s!"sequence item {i}: expected str instance, {kind} found"
  | .joinNone => "can only join an iterable"
  | .unreadable => "You can only load a file descriptor, filename or list"

end SmallScript.Data
