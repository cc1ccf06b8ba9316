import TreeQuery.Library.Functions

/-!
# Applying library functions

`Function.result?` joins the names of the functions to what they compute. It gives none when the
arguments do not fit the function, and for the functions that need the machine.
-/

set_option autoImplicit false

namespace TreeQuery

open Library

def Function.result? : Function → List Value → Option (Except CallError Value)
  | .coreType, [v] => some (.ok (.text v.typeName))
  | .coreCopy, [v] => some (.ok v)
  | .coreIsEmpty, [v] => some (.ok (.bool (Library.isEmpty v)))
  | .coreCount, [v] => some (.ok (.ofNat (Library.count v)))
  | .objectUpdate, [v, patch] => some (update v patch)
  | .objectUpsert, [v, patch] => some (upsert v patch)
  | .objectRename, [v, .text source, .text target] => some (rename v source target)
  | .objectRemove, [v, .text key] => some (remove v key)
  | .pathRetain, [v, list] => some (Library.retain v list)
  | .pathReclude, [v, list] => some (Library.reclude v list)
  | .pathMerge, [a, b] => some (.ok (a.merge b))
  | .pathPaths, [v] => some (.ok (Library.leaves v))
  | .pathValue, [.address a] => some (.ok a.value)
  | .pathGet, [v, .address a] => some (.ok (v.resolve a.steps))
  | .pathCreate, [v] => some (createAddress v)
  | .rawEncodeBase64, [.bytes b] => some (.ok (.text (Bytes.toBase64 b)))
  | .rawToHex, [.bytes b] => some (.ok (.text (Bytes.toHex b)))
  | .rawToString, [.bytes b] => some (toText b)
  | .rawDecodeBase64, [.text s] => some (decodeBase64 s)
  | .rawFromHex, [.text s] => some (fromHex s)
  | .rawFromString, [.text s] => some (.ok (.bytes (Bytes.ofText s)))
  | .errorCreate, [.text kind, .text message] =>
    some (.ok (.fault (Fault.raised kind message .empty)))
  | .errorCreate, [.text kind, .text message, payload] =>
    some (.ok (.fault (Fault.raised kind message payload)))
  | .errorKind, [.fault f] => some (.ok (.text f.kind.name))
  | .errorMessage, [.fault f] => some (.ok (.text f.message))
  | .errorPayload, [.fault f] => some (.ok f.payload)
  | _, _ => none

end TreeQuery
