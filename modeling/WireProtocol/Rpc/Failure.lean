
namespace WireProtocol.Rpc

inductive ErrorCode
  | unknownService | unknownMethod | badRequest | handlerFailed | internal
  deriving DecidableEq, Repr

namespace ErrorCode

def toInt32 : ErrorCode → Int32
  | unknownService => 1
  | unknownMethod => 2
  | badRequest => 3
  | handlerFailed => 4
  | internal => 5

/-- Codes that newer peers may send count as internal. -/
def ofInt32 (code : Int32) : ErrorCode :=
  if code = 1 then unknownService
  else if code = 2 then unknownMethod
  else if code = 3 then badRequest
  else if code = 4 then handlerFailed
  else internal

theorem ofInt32_toInt32 (code : ErrorCode) : ofInt32 code.toInt32 = code := by
  cases code <;> rfl

def name : ErrorCode → String
  | unknownService => "UnknownService"
  | unknownMethod => "UnknownMethod"
  | badRequest => "BadRequest"
  | handlerFailed => "HandlerFailed"
  | internal => "Internal"

end ErrorCode

structure Failure where
  code : ErrorCode
  message : String
  deriving DecidableEq, Repr

namespace Failure

def badRequest (message : String) : Failure := ⟨.badRequest, message⟩

def text (f : Failure) : String := f.code.name ++ ": " ++ f.message

end Failure

end WireProtocol.Rpc
