namespace SecurityScan.Text

/-!
# Texts from octets

* `decodeOctets` — the text of octets in UTF-8.  Octets that belong to no character are replaced:
  the longest start of a character among them, or a single octet, becomes one replacement
  character;
* `decodeOctets_ascii` — the characters of ASCII are one octet each.
-/

/-- What stands for octets that belong to no character. -/
def replacement : Char := '\ufffd'

/-- What the first octet of a character asks for: how many octets follow it, and the range of the
    next one, which leaves out overlong forms and surrogates. -/
def lead? (b : UInt8) : Option (Nat × UInt8 × UInt8) :=
  if b < 0x80 then some (0, 0x80, 0xbf)
  else if b < 0xc2 then none
  else if b < 0xe0 then some (1, 0x80, 0xbf)
  else if b = 0xe0 then some (2, 0xa0, 0xbf)
  else if b = 0xed then some (2, 0x80, 0x9f)
  else if b < 0xf0 then some (2, 0x80, 0xbf)
  else if b = 0xf0 then some (3, 0x90, 0xbf)
  else if b < 0xf4 then some (3, 0x80, 0xbf)
  else if b = 0xf4 then some (3, 0x80, 0x8f)
  else none

/-- The octets, at most `owed`, that continue a character; the first lies in the given range. -/
def tails : Nat → UInt8 → UInt8 → List UInt8 → List UInt8
  | owed + 1, low, high, b :: bs =>
    if low ≤ b ∧ b ≤ high then b :: tails owed 0x80 0xbf bs else []
  | _, _, _, _ => []

/-- The code point of a character of `owed + 1` octets. -/
def codePoint (first : UInt8) (owed : Nat) (more : List UInt8) : Nat :=
  let lead := if owed = 0 then first.toNat else first.toNat % Nat.pow 2 (6 - owed)
  more.foldl (fun n b => n * 64 + b.toNat % 64) lead

/-- The text of octets. -/
def decodeOctets : List UInt8 → List Char
  | [] => []
  | b :: bs =>
    match lead? b with
    | none => replacement :: decodeOctets bs
    | some (owed, low, high) =>
      let more := tails owed low high bs
      let c := if more.length = owed then Char.ofNat (codePoint b owed more) else replacement
      c :: decodeOctets (bs.drop more.length)
termination_by bs => bs.length
decreasing_by all_goals
  simp only [List.length_drop, List.length_cons]
  omega

/-- An octet below 128 is one character. -/
theorem decodeOctets_cons_of_lt {b : UInt8} (hb : b.toNat < 128) (bs : List UInt8) :
    decodeOctets (b :: bs) = Char.ofNat b.toNat :: decodeOctets bs := by
  have hlead : lead? b = some (0, 0x80, 0xbf) := if_pos (UInt8.lt_iff_toNat_lt.mpr hb)
  rw [decodeOctets, hlead]
  simp [tails, codePoint]

theorem decodeOctets_ascii {cs : List Char} (h : ∀ c ∈ cs, c.toNat < 128) :
    decodeOctets (cs.map fun c => UInt8.ofNat c.toNat) = cs := by
  induction cs with
  | nil => rw [List.map_nil, decodeOctets]
  | cons c cs ih =>
    obtain ⟨hc, hcs⟩ := List.forall_mem_cons.mp h
    have hoctet : (UInt8.ofNat c.toNat).toNat = c.toNat := by
      rw [UInt8.toNat_ofNat']
      omega
    rw [List.map_cons, decodeOctets_cons_of_lt (by omega), hoctet, Char.ofNat_toNat, ih hcs]

end SecurityScan.Text
