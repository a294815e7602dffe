import DbgScope.Pool.Decode
import Mathlib.Data.List.TakeWhile

/-!
# Tags as they are printed and asked for

How a tag is shown to someone who may hand it back, and how the extension's arguments are read. A
text is the list of its characters; what the source asks of its bytes is asked of ASCII characters
only, so the two agree.

A tag is shown as its four bytes where that comes back through the argument splitter as the same
tag, and as `0x` and its bytes in hexadecimal where it does not.
-/

namespace DbgScope.Pool

/-! ## Printing -/

def displayIsAmbiguous (tag : ℕ) : Bool :=
  (tagBytes tag).any fun byte => byte == 0x2e || !(isAsciiGraphic byte || byte == 0x20)

def hexDigit (n : ℕ) : Char := if n < 10 then Char.ofNat (0x30 + n) else Char.ofNat (0x57 + n)

/-- The tag's four bytes as hex, in memory order. -/
def rawTagHex (tag : ℕ) : String :=
  String.ofList (['0', 'x'] ++ (tagBytes tag).flatMap fun byte =>
    [hexDigit (byte.toNat / 16), hexDigit (byte.toNat % 16)])

/-- Whether the displayed form can be handed back and name the same tag again. -/
def displayRoundTrips (tag : ℕ) : Bool :=
  if displayIsAmbiguous tag then false
  else
    let bytes := tagBytes tag
    let leading := (bytes.takeWhile fun byte => byte != 0x20).length
    leading != 0 && (bytes.drop leading).all fun byte => byte == 0x20

def tagLabel (tag : ℕ) : String :=
  if displayRoundTrips tag then displayTag tag else rawTagHex tag

/-! ## Parsing -/

def hexValue (c : Char) : Option ℕ :=
  if '0' ≤ c ∧ c ≤ '9' then some (c.toNat - 0x30)
  else if 'a' ≤ c ∧ c ≤ 'f' then some (c.toNat - 0x57)
  else if 'A' ≤ c ∧ c ≤ 'F' then some (c.toNat - 0x37)
  else none

def isAsciiHexdigit (c : Char) : Bool := (hexValue c).isSome

def hexPairs : List Char → List UInt8
  | high :: low :: rest =>
    UInt8.ofNat (16 * (hexValue high).getD 0 + (hexValue low).getD 0) :: hexPairs rest
  | _ => []

def stripHexMark : List Char → Option (List Char)
  | '0' :: 'x' :: digits => some digits
  | '0' :: 'X' :: digits => some digits
  | _ => none

def parseRawTag (text : List Char) : Option ℕ :=
  match stripHexMark text with
  | none => none
  | some digits =>
    if digits.length = 8 ∧ digits.all isAsciiHexdigit then some (fromLe (hexPairs digits)) else none

/-- The displayed form alone: up to four bytes, padded with spaces. -/
def parseDisplayedTag (text : List Char) : Option ℕ :=
  if text.isEmpty ∨ 4 < text.length ∨ ¬ text.all (fun c => c.toNat < 0x80) then none
  else
    some (fromLe (text.map (fun c => UInt8.ofNat c.toNat) ++
      List.replicate (4 - text.length) 0x20))

def parseTag (text : List Char) : Option ℕ :=
  match parseRawTag text with
  | some raw => some raw
  | none => parseDisplayedTag text

/-! ## Arguments -/

def isAsciiWhitespace (c : Char) : Bool :=
  c == ' ' || c == '\t' || c == '\n' || c == Char.ofNat 0x0c || c == '\r'

/-- The tokens of a text, a token read so far in front. -/
def tokensFrom (token : List Char) : List Char → List (List Char)
  | [] => if token.isEmpty then [] else [token]
  | c :: rest =>
    if isAsciiWhitespace c then
      if token.isEmpty then tokensFrom [] rest else token :: tokensFrom [] rest
    else tokensFrom (token ++ [c]) rest

def splitAsciiWhitespace (text : List Char) : List (List Char) := tokensFrom [] text

/-- `u64::from_str_radix(digits, 16)`: a sign may stand in front. -/
def parseHexWord (digits : List Char) : Option ℕ :=
  let digits := match digits with
    | '+' :: rest => rest
    | digits => digits
  if digits.isEmpty ∨ ¬ digits.all isAsciiHexdigit then none
  else
    let value := digits.foldl (fun value c => 16 * value + (hexValue c).getD 0) 0
    if value < 2 ^ 64 then some value else none

def parseAddress (text : List Char) : Option ℕ :=
  let compact := text.filter (· != Char.ofNat 0x60)
  let digits := match compact with
    | '0' :: 'x' :: rest => rest
    | compact => compact
  if digits.isEmpty then none else parseHexWord digits

inductive PoolFilter
  | paged
  | nonPaged
  deriving DecidableEq

structure PoolCommand where
  tag : Option ℕ := none
  filter : Option PoolFilter := none
  refresh : Bool := false
  address : Option ℕ := none
  deriving DecidableEq

def PoolCommand.setFilter (command : PoolCommand) (filter : PoolFilter) :
    Except String PoolCommand :=
  if command.filter.isSome then .error "-paged and -nonpaged are mutually exclusive"
  else .ok { command with filter := some filter }

def PoolCommand.setAddress (command : PoolCommand) (value : List Char) :
    Except String PoolCommand :=
  let shown := String.ofList value
  if value.head? ≠ some '-' ∧ command.address.isNone then
    match parseAddress value with
    | some address => .ok { command with address := some address }
    | none => .error s!"invalid address `{shown}`"
  else .error s!"unrecognized argument `{shown}`"

def parseTokens : List (List Char) → PoolCommand → Except String PoolCommand
  | [], command => .ok command
  | token :: rest, command =>
    if token = "-tag".toList then
      match rest with
      | [] => .error "-tag requires 1..4 ASCII bytes or 0x+8 hex digits"
      | text :: rest =>
        if command.tag.isSome then .error "-tag may be specified only once"
        else match parseTag text with
          | none => .error "tag must be 1..4 ASCII bytes or 0x+8 hex digits"
          | some tag => parseTokens rest { command with tag := some tag }
    else if token = "-paged".toList then do parseTokens rest (← command.setFilter .paged)
    else if token = "-nonpaged".toList then do parseTokens rest (← command.setFilter .nonPaged)
    else if token = "-refresh".toList then parseTokens rest { command with refresh := true }
    else do parseTokens rest (← command.setAddress token)

def parseArgs (args : List Char) : Except String PoolCommand := do
  let command ← parseTokens (splitAsciiWhitespace args) {}
  if command.tag.isNone && command.address.isNone then .error "a tag or address is required"
  else if command.tag.isSome && command.address.isSome then
    .error "use either -tag or an address, not both"
  else .ok command

/-! ## Bytes and characters -/

theorem forall_byte {p : UInt8 → Prop} (h : ∀ n : Fin 256, p (UInt8.ofNat n)) (byte : UInt8) :
    p byte := by
  have hbyte := h ⟨byte.toNat, byte.toNat_lt⟩
  rwa [UInt8.ofNat_toNat] at hbyte

def shownByte (byte : UInt8) : Char :=
  if isAsciiGraphic byte || byte == 0x20 then Char.ofNat byte.toNat else '.'

/-- A byte that is shown as itself, and as which no other is shown. -/
def plainByte (byte : UInt8) : Bool := !(byte == 0x2e) && (isAsciiGraphic byte || byte == 0x20)

def lookalike (byte : UInt8) : UInt8 :=
  if plainByte byte then byte else if byte == 0x2e then 0 else 0x2e

theorem shownByte_ascii : ∀ byte, (shownByte byte).toNat < 0x80 := forall_byte (by decide +kernel)

theorem shownByte_lookalike : ∀ byte, shownByte (lookalike byte) = shownByte byte :=
  forall_byte (by decide +kernel)

theorem lookalike_eq : ∀ byte, lookalike byte = byte → plainByte byte = true :=
  forall_byte (by decide +kernel)

theorem ofNat_shownByte : ∀ byte, plainByte byte = true →
    UInt8.ofNat (shownByte byte).toNat = byte := forall_byte (by decide +kernel)

theorem plainByte_of_shown : ∀ byte, shownByte byte ≠ '.' → plainByte byte = true :=
  forall_byte (by decide +kernel)

theorem shownByte_ne_dot : ∀ byte, plainByte byte = true → shownByte byte ≠ '.' :=
  forall_byte (by decide +kernel)

theorem isAsciiWhitespace_shownByte : ∀ byte,
    isAsciiWhitespace (shownByte byte) = (byte == 0x20) := forall_byte (by decide +kernel)

theorem hexValue_hexDigit : ∀ n < 16, hexValue (hexDigit n) = some n := by decide

theorem eq_of_shownByte_eq {byte other : UInt8} (h : shownByte other = shownByte byte)
    (hplain : plainByte byte = true) : other = byte := by
  have hother : plainByte other = true :=
    plainByte_of_shown other (h ▸ shownByte_ne_dot byte hplain)
  rw [← ofNat_shownByte other hother, h, ofNat_shownByte byte hplain]

theorem eq_of_map_shownByte_eq {bytes others : List UInt8}
    (hplain : ∀ byte ∈ bytes, plainByte byte = true)
    (h : others.map shownByte = bytes.map shownByte) : others = bytes := by
  induction bytes generalizing others with
  | nil => exact List.map_eq_nil_iff.mp h
  | cons byte bytes ih =>
    obtain ⟨other, others, rfl, hbyte, hbytes⟩ := List.map_eq_cons_iff.mp h
    rw [eq_of_shownByte_eq hbyte (hplain byte List.mem_cons_self),
      ih (fun b hb => hplain b (List.mem_cons_of_mem _ hb)) hbytes]

theorem toLe_fromLe (bytes : List UInt8) : toLe bytes.length (fromLe bytes) = bytes := by
  induction bytes with
  | nil => rfl
  | cons byte bytes ih =>
    have hbyte := byte.toNat_lt
    rw [List.length_cons, toLe, fromLe, Nat.add_mul_mod_self_left,
      Nat.mod_eq_of_lt hbyte, UInt8.ofNat_toNat, Nat.add_mul_div_left _ _ (by decide),
      Nat.div_eq_of_lt hbyte, Nat.zero_add, ih]

section Tags

variable {tag other : ℕ}

theorem length_tagBytes (tag : ℕ) : (tagBytes tag).length = 4 := length_toLe 4 tag

theorem fromLe_tagBytes (h : tag < 2 ^ 32) : fromLe (tagBytes tag) = tag := fromLe_toLe h

theorem tagBytes_fromLe {bytes : List UInt8} (h : bytes.length = 4) :
    tagBytes (fromLe bytes) = bytes := by
  unfold tagBytes
  rw [← h, toLe_fromLe]

theorem fromLe_lt_of_length {bytes : List UInt8} (h : bytes.length = 4) :
    fromLe bytes < 2 ^ 32 := by
  have hlt := fromLe_lt bytes
  rw [h] at hlt
  exact hlt

theorem eq_of_tagBytes_eq (htag : tag < 2 ^ 32) (hother : other < 2 ^ 32)
    (h : tagBytes tag = tagBytes other) : tag = other := by
  rw [← fromLe_tagBytes htag, h, fromLe_tagBytes hother]

theorem toList_displayTag (tag : ℕ) : (displayTag tag).toList = (tagBytes tag).map shownByte :=
  String.toList_ofList

theorem displayIsAmbiguous_eq_false :
    displayIsAmbiguous tag = false ↔ ∀ byte ∈ tagBytes tag, plainByte byte = true := by
  unfold displayIsAmbiguous
  rw [List.any_eq_false]
  refine forall₂_congr fun byte _ => ?_
  unfold plainByte
  cases byte == 0x2e <;> cases isAsciiGraphic byte <;> cases byte == 0x20 <;> simp

/-- **A displayed form names one tag just when it is not ambiguous.** -/
theorem displayIsAmbiguous_iff (htag : tag < 2 ^ 32) : displayIsAmbiguous tag = false ↔
    ∀ other < 2 ^ 32, displayTag other = displayTag tag → other = tag := by
  rw [displayIsAmbiguous_eq_false]
  constructor
  · intro hplain other hother hshown
    have hchars := congrArg String.toList hshown
    rw [toList_displayTag, toList_displayTag] at hchars
    refine eq_of_tagBytes_eq hother htag ?_
    exact eq_of_map_shownByte_eq hplain hchars
  · intro hunique
    have hlength : ((tagBytes tag).map lookalike).length = 4 := by
      rw [List.length_map, length_tagBytes]
    have hsame := hunique _ (fromLe_lt_of_length hlength) (by
      refine String.toList_inj.mp ?_
      rw [toList_displayTag, toList_displayTag, tagBytes_fromLe hlength, List.map_map]
      exact List.map_congr_left fun byte _ => shownByte_lookalike byte)
    have hbytes := tagBytes_fromLe hlength
    rw [hsame] at hbytes
    have hall := List.map_inj_left.mp (hbytes.symm.trans (List.map_id _).symm)
    exact fun byte hbyte => lookalike_eq byte (hall byte hbyte)

theorem displayRoundTrips_iff : displayRoundTrips tag = true ↔ displayIsAmbiguous tag = false ∧
    ∃ name, name ≠ [] ∧ (∀ byte ∈ name, (byte == 0x20) = false) ∧
      tagBytes tag = name ++ List.replicate (4 - name.length) 0x20 := by
  have hsplit := List.takeWhile_append_dropWhile (p := fun byte : UInt8 => byte != 0x20)
    (l := tagBytes tag)
  have hdrop : (tagBytes tag).drop ((tagBytes tag).takeWhile fun byte => byte != 0x20).length =
      (tagBytes tag).dropWhile fun byte => byte != 0x20 := by
    have hleft : ∀ l r : List UInt8, (l ++ r).drop l.length = r := fun _ _ => List.drop_left
    have hpart := hleft ((tagBytes tag).takeWhile fun byte => byte != 0x20)
      ((tagBytes tag).dropWhile fun byte => byte != 0x20)
    rwa [hsplit] at hpart
  unfold displayRoundTrips
  cases displayIsAmbiguous tag
  · simp only [Bool.false_eq_true, if_false, true_and, Bool.and_eq_true, bne_iff_ne, ne_eq,
      List.length_eq_zero_iff, hdrop]
    constructor
    · rintro ⟨hname, hpad⟩
      refine ⟨_, hname, fun byte hbyte => ?_, ?_⟩
      · have hblack : (!(byte == 0x20)) = true :=
          List.mem_takeWhile_imp (p := fun byte : UInt8 => byte != 0x20) hbyte
        exact (Bool.not_eq_true' _).mp hblack
      · have hlength := congrArg List.length hsplit
        rw [List.length_append, length_tagBytes] at hlength
        conv_lhs => rw [← hsplit]
        refine congrArg _ (List.eq_replicate_iff.mpr ⟨by omega, fun byte hbyte => ?_⟩)
        exact eq_of_beq (List.all_eq_true.mp hpad byte hbyte)
    · rintro ⟨name, hname, hbytes, htag⟩
      have htake : (tagBytes tag).takeWhile (fun byte => byte != 0x20) = name := by
        rw [htag, List.takeWhile_append_of_pos fun byte hbyte => by
          rw [bne, hbytes byte hbyte]; rfl]
        simp
      rw [htake] at hsplit
      rw [htake, List.append_cancel_left (hsplit.trans htag)]
      exact ⟨hname, by simp⟩
  · simp

end Tags

/-! ## Tokens -/

section Tokens

variable {token blank text rest : List Char}

theorem tokensFrom_append (hrest : ∀ c ∈ rest, isAsciiWhitespace c = false) :
    tokensFrom token (rest ++ text) = tokensFrom (token ++ rest) text := by
  induction rest generalizing token with
  | nil => rw [List.nil_append, List.append_nil]
  | cons c rest ih =>
    have hc : isAsciiWhitespace c = false := hrest c List.mem_cons_self
    rw [List.cons_append, tokensFrom, hc, if_neg Bool.false_ne_true,
      ih fun d hd => hrest d (List.mem_cons_of_mem _ hd), List.append_assoc, List.singleton_append]

theorem tokensFrom_blank (hblank : ∀ c ∈ blank, isAsciiWhitespace c = true) :
    tokensFrom [] (blank ++ text) = tokensFrom [] text := by
  induction blank with
  | nil => rfl
  | cons c blank ih =>
    rw [List.cons_append, tokensFrom, hblank c List.mem_cons_self, if_pos rfl,
      if_pos List.isEmpty_nil]
    exact ih fun d hd => hblank d (List.mem_cons_of_mem _ hd)

theorem splitAsciiWhitespace_token (htoken : token ≠ [])
    (hblack : ∀ c ∈ token, isAsciiWhitespace c = false)
    (hblank : ∀ c ∈ blank, isAsciiWhitespace c = true) (hsome : blank ≠ []) :
    splitAsciiWhitespace (token ++ (blank ++ text)) = token :: splitAsciiWhitespace text := by
  obtain ⟨c, blank, rfl⟩ := List.exists_cons_of_ne_nil hsome
  unfold splitAsciiWhitespace
  rw [tokensFrom_append hblack, List.nil_append, List.cons_append, tokensFrom,
    hblank c List.mem_cons_self, if_pos rfl, if_neg (by rwa [List.isEmpty_iff]),
    tokensFrom_blank fun d hd => hblank d (List.mem_cons_of_mem _ hd)]

theorem splitAsciiWhitespace_last (htoken : token ≠ [])
    (hblack : ∀ c ∈ token, isAsciiWhitespace c = false)
    (hblank : ∀ c ∈ blank, isAsciiWhitespace c = true) :
    splitAsciiWhitespace (token ++ blank) = [token] := by
  rcases List.eq_nil_or_concat blank with rfl | ⟨_, _, hconcat⟩
  · unfold splitAsciiWhitespace
    rw [tokensFrom_append hblack, List.nil_append, tokensFrom, if_neg (by rwa [List.isEmpty_iff])]
  · have hsome : blank ≠ [] := by
      rw [hconcat]
      simp
    have hsplit :
        splitAsciiWhitespace (token ++ (blank ++ [])) = token :: splitAsciiWhitespace [] :=
      splitAsciiWhitespace_token htoken hblack hblank hsome
    rwa [List.append_nil] at hsplit

theorem tokensFrom_mem (htoken : ∀ c ∈ token, isAsciiWhitespace c = false) :
    ∀ part ∈ tokensFrom token text, part ≠ [] ∧ (∀ c ∈ part, isAsciiWhitespace c = false) ∧
      part.length ≤ token.length + text.length := by
  induction text generalizing token with
  | nil =>
    intro part hpart
    rw [tokensFrom] at hpart
    split at hpart
    · exact absurd hpart List.not_mem_nil
    · next hsome =>
      rw [List.mem_singleton.mp hpart]
      exact ⟨by rwa [List.isEmpty_iff] at hsome, htoken, Nat.le_add_right _ _⟩
  | cons c text ih =>
    have hnil : ∀ d ∈ ([] : List Char), isAsciiWhitespace d = false := List.forall_mem_nil _
    intro part hpart
    rw [tokensFrom] at hpart
    split at hpart
    · split at hpart
      · obtain ⟨hsome, hblack, hlength⟩ := ih hnil part hpart
        exact ⟨hsome, hblack, by simp only [List.length_nil, List.length_cons] at *; omega⟩
      · next hsome =>
        rcases List.mem_cons.mp hpart with rfl | hpart
        · exact ⟨by rwa [List.isEmpty_iff] at hsome, htoken, Nat.le_add_right _ _⟩
        · obtain ⟨hsome, hblack, hlength⟩ := ih hnil part hpart
          exact ⟨hsome, hblack, by simp only [List.length_nil, List.length_cons] at *; omega⟩
    · next hc =>
      have hlonger : ∀ d ∈ token ++ [c], isAsciiWhitespace d = false := by
        intro d hd
        rcases List.mem_append.mp hd with hd | hd
        · exact htoken d hd
        · rw [List.mem_singleton.mp hd]
          exact Bool.eq_false_iff.mpr hc
      obtain ⟨hsome, hblack, hlength⟩ := ih hlonger part hpart
      refine ⟨hsome, hblack, ?_⟩
      rw [List.length_append, List.length_singleton] at hlength
      rw [List.length_cons]
      omega

end Tokens

/-! ## There and back -/

section RoundTrip

variable {tag : ℕ} {text : List Char}

theorem length_of_parseRawTag (h : parseRawTag text = some tag) : text.length = 10 := by
  unfold parseRawTag at h
  split at h
  · cases h
  · next digits hdigits =>
    obtain ⟨⟨hlength, -⟩, -⟩ := Option.ite_none_right_eq_some.mp h
    unfold stripHexMark at hdigits
    split at hdigits
    · rw [← Option.some.inj hdigits] at hlength
      rw [List.length_cons, List.length_cons, hlength]
    · rw [← Option.some.inj hdigits] at hlength
      rw [List.length_cons, List.length_cons, hlength]
    · cases hdigits

/-- **No text is both forms of a tag.** -/
theorem not_both_forms (text : List Char) :
    parseRawTag text = none ∨ parseDisplayedTag text = none := by
  rcases hraw : parseRawTag text with _ | tag
  · exact Or.inl rfl
  · refine Or.inr (if_pos (Or.inr (Or.inl ?_)))
    rw [length_of_parseRawTag hraw]
    decide

theorem parseTag_of_short (hlength : text.length ≤ 4) : parseTag text = parseDisplayedTag text := by
  unfold parseTag
  rcases hraw : parseRawTag text with _ | tag
  · rfl
  · rw [length_of_parseRawTag hraw] at hlength
    omega

theorem hexPairs_digits (bytes : List UInt8) :
    hexPairs (bytes.flatMap fun byte =>
      [hexDigit (byte.toNat / 16), hexDigit (byte.toNat % 16)]) = bytes := by
  induction bytes with
  | nil => rfl
  | cons byte bytes ih =>
    have hbyte := byte.toNat_lt
    rw [List.flatMap_cons, List.cons_append, List.cons_append, List.nil_append, hexPairs, ih,
      hexValue_hexDigit _ (by omega), hexValue_hexDigit _ (by omega), Option.getD_some,
      Option.getD_some, Nat.div_add_mod, UInt8.ofNat_toNat]

theorem hexDigits_spec (bytes : List UInt8) : ∀ c ∈ bytes.flatMap fun byte =>
    [hexDigit (byte.toNat / 16), hexDigit (byte.toNat % 16)],
    isAsciiHexdigit c = true ∧ isAsciiWhitespace c = false := by
  have hdigit : ∀ n < 16, isAsciiHexdigit (hexDigit n) = true ∧
      isAsciiWhitespace (hexDigit n) = false := by decide
  intro c hc
  obtain ⟨byte, -, hc⟩ := List.mem_flatMap.mp hc
  have hbyte := byte.toNat_lt
  rcases List.mem_cons.mp hc with rfl | hc
  · exact hdigit _ (by omega)
  · rw [List.mem_singleton.mp hc]
    exact hdigit _ (by omega)

theorem toList_rawTagHex (tag : ℕ) : (rawTagHex tag).toList =
    '0' :: 'x' :: (tagBytes tag).flatMap fun byte =>
      [hexDigit (byte.toNat / 16), hexDigit (byte.toNat % 16)] := String.toList_ofList

theorem parseTag_rawTagHex (htag : tag < 2 ^ 32) : parseTag (rawTagHex tag).toList = some tag := by
  have hraw : parseRawTag (rawTagHex tag).toList = some tag := by
    rw [toList_rawTagHex]
    change (if _ ∧ _ then some _ else none) = some tag
    rw [if_pos, hexPairs_digits, fromLe_tagBytes htag]
    refine ⟨?_, List.all_eq_true.mpr fun c hc => (hexDigits_spec _ c hc).1⟩
    rw [List.length_flatMap]
    simp [length_tagBytes]
  unfold parseTag
  rw [hraw]

theorem parseTag_name {name : List UInt8} (htag : tag < 2 ^ 32) (hname : name ≠ [])
    (hplain : displayIsAmbiguous tag = false)
    (hbytes : tagBytes tag = name ++ List.replicate (4 - name.length) 0x20) :
    parseTag (name.map shownByte) = some tag := by
  have hlength : name.length ≤ 4 := by
    have h := congrArg List.length hbytes
    rw [length_tagBytes, List.length_append] at h
    omega
  have hback : (name.map shownByte).map (fun c => UInt8.ofNat c.toNat) = name := by
    rw [List.map_map]
    refine (List.map_congr_left fun byte hbyte => ?_).trans (List.map_id name)
    refine ofNat_shownByte byte (displayIsAmbiguous_eq_false.mp hplain byte ?_)
    rw [hbytes]
    exact List.mem_append_left _ hbyte
  rw [parseTag_of_short (by rwa [List.length_map])]
  unfold parseDisplayedTag
  rw [if_neg, hback, List.length_map, ← hbytes, fromLe_tagBytes htag]
  rw [List.isEmpty_iff, List.map_eq_nil_iff, List.length_map, not_or, not_or, not_not,
    List.all_eq_true]
  refine ⟨hname, by omega, fun c hc => ?_⟩
  obtain ⟨byte, -, rfl⟩ := List.mem_map.mp hc
  exact decide_eq_true (shownByte_ascii byte)

theorem splitAsciiWhitespace_displayTag {name : List UInt8} (hname : name ≠ [])
    (hblack : ∀ byte ∈ name, (byte == 0x20) = false)
    (hbytes : tagBytes tag = name ++ List.replicate (4 - name.length) 0x20) :
    splitAsciiWhitespace (displayTag tag).toList = [name.map shownByte] := by
  rw [toList_displayTag, hbytes, List.map_append]
  refine splitAsciiWhitespace_last (by rwa [ne_eq, List.map_eq_nil_iff]) (fun c hc => ?_)
    fun c hc => ?_
  · obtain ⟨byte, hbyte, rfl⟩ := List.mem_map.mp hc
    rw [isAsciiWhitespace_shownByte, hblack byte hbyte]
  · obtain ⟨byte, hbyte, rfl⟩ := List.mem_map.mp hc
    rw [isAsciiWhitespace_shownByte, List.eq_of_mem_replicate hbyte]
    decide

/-- **Whatever is printed of a tag is one argument, and parses to the tag.** -/
theorem tagLabel_token (htag : tag < 2 ^ 32) :
    ∃ token, splitAsciiWhitespace (tagLabel tag).toList = [token] ∧ parseTag token = some tag := by
  unfold tagLabel
  by_cases hback : displayRoundTrips tag = true
  · rw [if_pos hback]
    obtain ⟨hplain, name, hname, hblack, hbytes⟩ := displayRoundTrips_iff.mp hback
    exact ⟨_, splitAsciiWhitespace_displayTag hname hblack hbytes,
      parseTag_name htag hname hplain hbytes⟩
  · rw [if_neg hback]
    refine ⟨_, ?_, parseTag_rawTagHex htag⟩
    have hblack : ∀ c ∈ (rawTagHex tag).toList, isAsciiWhitespace c = false := by
      intro c hc
      rw [toList_rawTagHex] at hc
      rcases List.mem_cons.mp hc with rfl | hc
      · decide
      rcases List.mem_cons.mp hc with rfl | hc
      · decide
      · exact (hexDigits_spec _ c hc).2
    have hsome : (rawTagHex tag).toList ≠ [] := by
      rw [toList_rawTagHex]
      exact List.cons_ne_nil _ _
    have hsplit := splitAsciiWhitespace_last hsome hblack (List.forall_mem_nil _)
    rwa [List.append_nil] at hsplit

/-- **A printed tag is read back from the command line.** -/
theorem parseArgs_tagLabel (htag : tag < 2 ^ 32) {blank : List Char} (hsome : blank ≠ [])
    (hblank : ∀ c ∈ blank, isAsciiWhitespace c = true) :
    parseArgs ("-tag".toList ++ (blank ++ (tagLabel tag).toList)) = .ok { tag := some tag } := by
  obtain ⟨token, hsplit, hparse⟩ := tagLabel_token htag
  have hblack : ∀ c ∈ "-tag".toList, isAsciiWhitespace c = false := fun c hc =>
    Bool.eq_false_iff.mpr (List.any_eq_false.mp (by decide) c hc)
  unfold parseArgs
  rw [splitAsciiWhitespace_token (by decide) hblack hblank hsome, hsplit]
  have hloop : parseTokens ["-tag".toList, token] {} = .ok { tag := some tag } := by
    rw [parseTokens, if_pos rfl]
    rw [hparse]
    rfl
  rw [hloop]
  rfl

theorem tagBytes_of_parseTag {token : List Char} (hlength : token.length ≤ 4)
    (hblack : ∀ c ∈ token, isAsciiWhitespace c = false) (h : parseTag token = some tag) :
    ∃ name : List UInt8, name ≠ [] ∧ (∀ byte ∈ name, (byte == 0x20) = false) ∧
      tagBytes tag = name ++ List.replicate (4 - name.length) 0x20 := by
  rw [parseTag_of_short hlength] at h
  unfold parseDisplayedTag at h
  obtain ⟨hok, h⟩ := Option.ite_none_left_eq_some.mp h
  rw [not_or, not_or, not_not, List.isEmpty_iff, List.all_eq_true] at hok
  obtain ⟨hsome, -, hascii⟩ := hok
  refine ⟨token.map fun c => UInt8.ofNat c.toNat, by rwa [ne_eq, List.map_eq_nil_iff],
    fun byte hbyte => ?_, ?_⟩
  · obtain ⟨c, hc, rfl⟩ := List.mem_map.mp hbyte
    refine Bool.eq_false_iff.mpr fun hspace => ?_
    have hnat : (UInt8.ofNat c.toNat).toNat = 0x20 := by rw [eq_of_beq hspace]; rfl
    have hlt := of_decide_eq_true (hascii c hc)
    rw [UInt8.toNat_ofNat', Nat.mod_eq_of_lt (by omega)] at hnat
    have hblank := hblack c hc
    rw [← Char.ofNat_toNat c, hnat] at hblank
    cases hblank
  · rw [← Option.some.inj h, tagBytes_fromLe (by simp; omega), List.length_map]

/-- **Every printed tag can be handed back.** What is printed of a tag is read from the command line
as that tag and nothing else; the displayed form is used just where it is one argument that parses
to the tag and no other tag is displayed so. -/
theorem printed_tags_come_back :
    (∀ tag < 2 ^ 32, ∀ blank : List Char, blank ≠ [] →
      (∀ c ∈ blank, isAsciiWhitespace c = true) →
      parseArgs ("-tag".toList ++ (blank ++ (tagLabel tag).toList)) =
        .ok { tag := some tag, filter := none, refresh := false, address := none }) ∧
    (∀ tag < 2 ^ 32, ∀ other < 2 ^ 32, tagLabel tag = tagLabel other → tag = other) ∧
    (∀ tag < 2 ^ 32, displayRoundTrips tag = true ↔
      (∃ token, splitAsciiWhitespace (displayTag tag).toList = [token] ∧
        parseTag token = some tag) ∧
      ∀ other < 2 ^ 32, displayTag other = displayTag tag → other = tag) ∧
    ∀ text, parseRawTag text = none ∨ parseDisplayedTag text = none := by
  refine ⟨fun tag htag blank hsome hblank => parseArgs_tagLabel htag hsome hblank,
    fun tag htag other hother heq => ?_, fun tag htag => ?_, not_both_forms⟩
  · obtain ⟨token, hsplit, hparse⟩ := tagLabel_token htag
    obtain ⟨token', hsplit', hparse'⟩ := tagLabel_token hother
    rw [heq, hsplit'] at hsplit
    rw [(List.cons.inj hsplit).1, hparse] at hparse'
    exact Option.some.inj hparse'
  · rw [← displayIsAmbiguous_iff htag]
    constructor
    · intro hback
      obtain ⟨hplain, name, hname, hblack, hbytes⟩ := displayRoundTrips_iff.mp hback
      exact ⟨⟨_, splitAsciiWhitespace_displayTag hname hblack hbytes,
        parseTag_name htag hname hplain hbytes⟩, hplain⟩
    · rintro ⟨⟨token, hsplit, hparse⟩, hplain⟩
      have hmem := tokensFrom_mem (List.forall_mem_nil _) token
        (show token ∈ splitAsciiWhitespace (displayTag tag).toList by
          rw [hsplit]; exact List.mem_singleton_self token)
      rw [toList_displayTag, List.length_map, length_tagBytes] at hmem
      exact displayRoundTrips_iff.mpr ⟨hplain, tagBytes_of_parseTag hmem.2.2 hmem.2.1 hparse⟩

theorem printed_tags_come_back_padded :
    tagLabel 0x2066744e = "Ntf " ∧
      parseArgs "-tag \tNtf ".toList = .ok { tag := some 0x2066744e } := by
  have hlabel : tagLabel 0x2066744e = "Ntf " := by decide +kernel
  refine ⟨hlabel, ?_⟩
  have hback := printed_tags_come_back.1 0x2066744e (by decide) [' ', '\t'] (by decide)
    (List.all_eq_true.mp (by decide))
  rw [hlabel] at hback
  exact hback

end RoundTrip

end DbgScope.Pool
