import LoxLang.Text

namespace LoxLang.Base64

def digits : Text := "ABCDEFGHIJKLMNOPQRSTUVWXYZabcdefghijklmnopqrstuvwxyz0123456789+/"

def filler : UInt8 := byte '='

def value? (b : UInt8) : Option Nat := digits.idxOf? b

def digit (n : Nat) : UInt8 := digits.getD n filler

def encode : Text → Text
  | a :: b :: c :: rest =>
    let n := a.toNat * 65536 + b.toNat * 256 + c.toNat
    digit (n / 262144) :: digit (n / 4096 % 64) :: digit (n / 64 % 64) :: digit (n % 64) ::
      encode rest
  | [a, b] =>
    let n := a.toNat * 1024 + b.toNat * 4
    [digit (n / 4096), digit (n / 64 % 64), digit (n % 64), filler]
  | [a] => [digit (a.toNat / 4), digit (a.toNat % 4 * 16), filler, filler]
  | [] => []

/-- The bytes of the groups up to the first that is not well-formed. A group with a filler is the
last. -/
def groups : Text → Text
  | a :: b :: c :: d :: rest =>
    match value? a, value? b, value? c, value? d with
    | some w, some x, some y, some z =>
      let n := w * 262144 + x * 4096 + y * 64 + z
      (n / 65536).toUInt8 :: (n / 256).toUInt8 :: n.toUInt8 :: groups rest
    | some w, some x, some y, none =>
      let n := w * 1024 + x * 16 + y / 4
      if d == filler then [(n / 256).toUInt8, n.toUInt8] else []
    | some w, some x, none, _ =>
      if c == filler && d == filler then [(w * 4 + x / 16).toUInt8] else []
    | _, _, _, _ => []
  | _ => []

/-- The bytes that a text denotes, as far as it is well-formed. Line breaks do not count. -/
def decode (t : Text) : Text := groups (t.filter fun b => b != byte '\r' && b != byte '\n')

end LoxLang.Base64
