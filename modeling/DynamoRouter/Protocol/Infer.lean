import Mathlib.Data.List.Basic

set_option relaxedAutoImplicit false
set_option autoImplicit false

/-!
# Messages of the inference service (`crates/protocol`)

The parts of the generated protobuf messages that the router reads or writes, and the statuses of the
RPC library. A response of a replica is forwarded unopened, so its type is a parameter.
-/

namespace Protocol

/-- The status codes of the RPC library. -/
inductive Code
  | ok | cancelled | unknown | invalidArgument | deadlineExceeded | notFound | alreadyExists
  | permissionDenied | resourceExhausted | failedPrecondition | aborted | outOfRange | unimplemented
  | internal | unavailable | dataLoss | unauthenticated
  deriving DecidableEq, Repr

/-- `Status`: a code and a message. -/
structure Status where
  /-- The code. -/
  code : Code
  /-- The message. -/
  message : String
  deriving DecidableEq, Repr

/-- `Status::invalid_argument`. -/
def Status.invalidArgument (message : String) : Status := ⟨.invalidArgument, message⟩

/-- `Status::unavailable`. -/
def Status.unavailable (message : String) : Status := ⟨.unavailable, message⟩

/-- `Status::resource_exhausted`. -/
def Status.resourceExhausted (message : String) : Status := ⟨.resourceExhausted, message⟩

/-- `InferTensorContents`. -/
structure InferTensorContents where
  /-- The byte strings of a `BYTES` tensor. -/
  bytesContents : List ByteArray

/-- `ModelInferRequest::InferInputTensor`. -/
structure InferInputTensor where
  /-- The name of the tensor. -/
  name : String
  /-- The contents, if they are in the message. -/
  contents : Option InferTensorContents

/-- `ModelInferRequest`. -/
structure ModelInferRequest where
  /-- The input tensors. -/
  inputs : List InferInputTensor

/-- `ModelStreamInferResponse`. -/
structure ModelStreamInferResponse (Resp : Type) where
  /-- The error, empty if there is none. -/
  errorMessage : String
  /-- The response, if there is one. -/
  inferResponse : Option Resp

end Protocol
