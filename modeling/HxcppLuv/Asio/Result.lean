/-!
The values the Haxe side hands to user callbacks.
-/

namespace HxcppLuv.Asio

universe u v

/-- `cpp.asio.Result`. -/
inductive Result (α : Type u) (ε : Type v) where
  | success (data : α)
  | error (code : ε)
  deriving DecidableEq

/-- `cpp.asio.Code`, an abstract over `Int`. -/
abbrev Code := Int

namespace Code

/-- `Code.eof`, the value of `UV_EOF`. -/
def eof : Code := -4095

def isError (code : Code) : Bool := code < 0

end Code
end HxcppLuv.Asio
