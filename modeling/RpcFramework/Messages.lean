-- The messages of `rpc.proto`, the controller of a call, and what the code uses
-- of the protobuf library. The library is not part of the repository, so it is a
-- parameter: what a law needs of it is a hypothesis with a name.
import RpcFramework.Buffer

namespace rpc

open net

structure RpcRequest where
  serviceName : String
  methodName : String
  requestId : UInt32
  argsData : Bytes
  deriving DecidableEq

structure RpcResponse where
  requestId : UInt32
  success : Bool
  resultData : Bytes
  errorMsg : String
  deriving DecidableEq

structure RpcController where
  failed : Bool
  errText : String
  deriving DecidableEq

def RpcController.new : RpcController := ⟨false, ""⟩

def RpcController.setFailed (_ : RpcController) (reason : String) : RpcController :=
  ⟨true, reason⟩

/-- The protobuf functions that the code calls. `SerializeToString` gives the text, or fails.
`ParseFromString` of a message object gives the object after the call and the result of the
call; for the two envelope messages only a success is looked at. -/
structure Protobuf (Msg : Type) where
  serializeRequest : RpcRequest → Option Bytes
  parseRequest : Bytes → Option RpcRequest
  serializeResponse : RpcResponse → Option Bytes
  parseResponse : Bytes → Option RpcResponse
  serialize : Msg → Option Bytes
  parse : Msg → Bytes → Msg × Bool

/-- What is serialised is read back. A message is read back by an object of its own type. -/
structure Protobuf.RoundTrips {Msg : Type} (pb : Protobuf Msg) (typeName : Msg → String) :
    Prop where
  request : ∀ r b, pb.serializeRequest r = some b → pb.parseRequest b = some r
  response : ∀ r b, pb.serializeResponse r = some b → pb.parseResponse b = some r
  message : ∀ m m' b, typeName m' = typeName m → pb.serialize m = some b →
    pb.parse m' b = (m, true)

end rpc
