/-! # Text from bytes — UTF-8 and line ends

    A file is read as UTF-8.  Bytes that are no UTF-8 are refused at the first sequence that
    cannot be completed, and the refusal names the bytes of that sequence that were looked at.
    Every way to end a line is read as one line end. -/

namespace BraceScript.Text

/-- Why bytes are no UTF-8. -/
inductive DecodeReason where
  | startByte
  | continuationByte
  | endOfData
  deriving DecidableEq, Repr

/-- The bytes that are no UTF-8: the first of them and the positions that they take up. -/
structure DecodeError where
  byte : Nat
  start : Nat
  stop : Nat
  reason : DecodeReason
  deriving DecidableEq, Repr

/-- The reason in words. -/
def DecodeReason.text : DecodeReason → String
  | .startByte => "invalid start byte"
  | .continuationByte => "invalid continuation byte"
  | .endOfData => "unexpected end of data"

/-- A byte in two hexadecimal digits. -/
def byteText (b : Nat) : String :=
  let digits := Nat.toDigits 16 b
  "0x" ++ String.ofList (List.replicate (2 - digits.length) '0' ++ digits)

/-- The wording of a refusal. -/
def DecodeError.message (e : DecodeError) : String :=
  let what :=
    if e.stop = e.start + 1 then "byte " ++ byteText e.byte ++ " in position " ++ toString e.start
    else "bytes in position " ++ toString e.start ++ "-" ++ toString (e.stop - 1)
  "'utf-8' codec can't decode " ++ what ++ ": " ++ e.reason.text

/-- Whether a byte continues a sequence. -/
def isContinuation (b : Nat) : Bool := 0x80 ≤ b && b < 0xc0

/-- Whether a byte may stand second, after the first byte of a sequence of three. -/
def isSecondOfThree (first b : Nat) : Bool :=
  isContinuation b && !(if b < 0xa0 then first = 0xe0 else first = 0xed)

/-- Whether a byte may stand second, after the first byte of a sequence of four. -/
def isSecondOfFour (first b : Nat) : Bool :=
  isContinuation b && !(if b < 0x90 then first = 0xf0 else first = 0xf4)

/-- Decodes bytes that begin at a position. -/
def decodeFrom (position : Nat) : List Nat → Except DecodeError (List Char)
  | [] => .ok []
  | a :: rest =>
      let refuse := fun (count : Nat) (reason : DecodeReason) =>
        (.error ⟨a, position, position + count, reason⟩ : Except DecodeError (List Char))
      let accept := fun (code : Nat) (tail : Except DecodeError (List Char)) =>
        tail.map (Char.ofNat code :: ·)
      if a < 0x80 then accept a (decodeFrom (position + 1) rest)
      else if a < 0xc2 then refuse 1 .startByte
      else if a < 0xe0 then
        match rest with
        | [] => refuse 1 .endOfData
        | b :: rest =>
            if !isContinuation b then refuse 1 .continuationByte
            else accept ((a - 0xc0) * 64 + (b - 0x80)) (decodeFrom (position + 2) rest)
      else if a < 0xf0 then
        match rest with
        | [] => refuse 1 .endOfData
        | b :: rest =>
            if !isSecondOfThree a b then refuse 1 .continuationByte
            else
              match rest with
              | [] => refuse 2 .endOfData
              | c :: rest =>
                  if !isContinuation c then refuse 2 .continuationByte
                  else
                    accept (((a - 0xe0) * 64 + (b - 0x80)) * 64 + (c - 0x80))
                      (decodeFrom (position + 3) rest)
      else if a < 0xf5 then
        match rest with
        | [] => refuse 1 .endOfData
        | b :: rest =>
            if !isSecondOfFour a b then refuse 1 .continuationByte
            else
              match rest with
              | [] => refuse 2 .endOfData
              | c :: rest =>
                  if !isContinuation c then refuse 2 .continuationByte
                  else
                    match rest with
                    | [] => refuse 3 .endOfData
                    | d :: rest =>
                        if !isContinuation d then refuse 3 .continuationByte
                        else
                          accept ((((a - 0xf0) * 64 + (b - 0x80)) * 64 + (c - 0x80)) * 64
                              + (d - 0x80))
                            (decodeFrom (position + 4) rest)
      else refuse 1 .startByte

/-- Reads a return, alone or before a line feed, as one line end. -/
def plainLineEnds : List Char → List Char
  | '\r' :: '\n' :: rest => '\n' :: plainLineEnds rest
  | '\r' :: rest => '\n' :: plainLineEnds rest
  | c :: rest => c :: plainLineEnds rest
  | [] => []

/-- The text in a file. -/
def ofBytes (bytes : List Nat) : Except DecodeError String :=
  (decodeFrom 0 bytes).map fun cs => String.ofList (plainLineEnds cs)

end BraceScript.Text
