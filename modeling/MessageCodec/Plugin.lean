import MessageCodec.Generation
import MessageCodec.Schema.Binary.Write

/-!
# The compiler plugin

A schema compiler hands a serialized request to a plugin and takes a serialized response from it.
-/

namespace MessageCodec

open Descriptor.Binary

def Response.toBytes (r : Response) : List UInt8 :=
  (r.error.map (textRecord 1)).getD [] ++ numberRecord 2 r.supportedFeatures
    ++ numberRecord 3 r.minimumEdition ++ numberRecord 4 r.maximumEdition
    ++ r.files.flatMap fun f => blockRecord 15 (textRecord 1 f.name ++ textRecord 15 f.content)

/-- Answer a serialized request. `runtime` is the text of the shared runtime module. -/
def answerBytes (w : Workspace) (runtime : String) (request : List UInt8) : Run Response := do
  let request ← (Descriptor.Request.ofBytes request : Except Error _)
  respond w runtime request

end MessageCodec
