/-! # Lossy decoding of UTF-8

Bytes become text whatever they are: each maximal run of bytes that begins a
character but does not complete it, and each byte that begins none, is replaced
by one U+FFFD.
-/
namespace DatabaseTracing.Lossy

structure ByteRange where
  low : UInt8
  high : UInt8
  deriving DecidableEq, Repr

def ByteRange.contains (r : ByteRange) (b : UInt8) : Bool := r.low ≤ b && b ≤ r.high

def continuation : ByteRange := ⟨0x80, 0xbf⟩

/-- The ranges of the bytes that complete a character begun by `lead`. The second byte's range is
narrower where it would spell a surrogate, an overlong form or a code point past U+10FFFF. -/
def following (lead : UInt8) : Option (List ByteRange) :=
  if lead < 0x80 then some []
  else if lead < 0xc2 then none
  else if lead < 0xe0 then some [continuation]
  else if lead = 0xe0 then some [⟨0xa0, 0xbf⟩, continuation]
  else if lead = 0xed then some [⟨0x80, 0x9f⟩, continuation]
  else if lead < 0xf0 then some [continuation, continuation]
  else if lead = 0xf0 then some [⟨0x90, 0xbf⟩, continuation, continuation]
  else if lead < 0xf4 then some [continuation, continuation, continuation]
  else if lead = 0xf4 then some [⟨0x80, 0x8f⟩, continuation, continuation]
  else none

/-- The longest run of leading bytes that lie in the ranges one after the other. -/
def matching : List ByteRange → List UInt8 → List UInt8
  | r :: rs, b :: bs => if r.contains b then b :: matching rs bs else []
  | _, _ => []

def scalar (lead : UInt8) (body : List UInt8) : Char :=
  let high := match body.length with
    | 0 => lead.toNat
    | 1 => lead.toNat % 32
    | 2 => lead.toNat % 16
    | _ => lead.toNat % 8
  Char.ofNat (body.foldl (fun acc b => acc * 64 + b.toNat % 64) high)

def replacement : Char := '\ufffd'

def decode : List UInt8 → List Char
  | [] => []
  | lead :: bs =>
    match following lead with
    | none => replacement :: decode bs
    | some ranges =>
      let body := matching ranges bs
      (if body.length = ranges.length then scalar lead body else replacement)
        :: decode (bs.drop body.length)
termination_by bs => bs.length
decreasing_by all_goals simp only [List.length_cons, List.length_drop]; omega

end DatabaseTracing.Lossy
