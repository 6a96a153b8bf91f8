import Quackapi.Library.JsonText

/-! The chunked transfer coding: every chunk is preceded by its length in hexadecimal, and an empty
one ends the body. -/

namespace Library

def crlf : List Char := ['\r', '\n']

def hexText (n : Nat) : List Char := Nat.toDigits 16 n

def chunkText (data : List Char) : List Char := hexText data.length ++ crlf ++ data ++ crlf

theorem hexDigit_digitChar : ∀ d < 16, hexDigit (Nat.digitChar d) = some d := by decide

end Library
