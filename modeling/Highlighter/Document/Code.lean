/-! # Codes — reading UTF-8 char by char

    A document is kept as its UTF-8 code, and whatever is read of it is decoded on the way:
    `skipChars` goes some chars on, `foldChars` goes over the chars of a stretch of bytes
    and hands on each with the byte where its code begins, and `lastByte?` and `firstByte?`
    look for a byte.  All of them take a byte offset that lies between two codes.

    At such an offset a code splits into the code of what is before and the code of what
    comes, and reading on from there gives the chars that come (`decode_code`,
    `skipChars_code`, `foldChars_code`). -/

namespace Highlighter

/-- The UTF-8 code of a text, as a list. -/
def utf8 (cs : List Char) : List UInt8 := cs.flatMap String.utf8EncodeChar

@[simp] theorem utf8_nil : utf8 [] = [] := rfl

@[simp] theorem utf8_cons (c : Char) (cs : List Char) :
    utf8 (c :: cs) = String.utf8EncodeChar c ++ utf8 cs := rfl

@[simp] theorem utf8_append (cs cs' : List Char) : utf8 (cs ++ cs') = utf8 cs ++ utf8 cs' :=
  List.flatMap_append

theorem length_utf8_cons (c : Char) (cs : List Char) :
    (utf8 (c :: cs)).length = c.utf8Size + (utf8 cs).length := by
  rw [utf8_cons, List.length_append, String.length_utf8EncodeChar]

theorem length_utf8_singleton (c : Char) : (utf8 [c]).length = c.utf8Size := length_utf8_cons c []

/-- A char takes a byte at least. -/
theorem utf8_pos {cs : List Char} (h : cs ≠ []) : 0 < (utf8 cs).length := by
  obtain ⟨c, rest, rfl⟩ := List.exists_cons_of_ne_nil h
  rw [length_utf8_cons]
  exact Nat.add_pos_left c.utf8Size_pos _

/-- Every char has a byte. -/
theorem length_le_length_utf8 (cs : List Char) : cs.length ≤ (utf8 cs).length := by
  induction cs with
  | nil => exact Nat.le_refl 0
  | cons c cs ih =>
      rw [length_utf8_cons, List.length_cons, Nat.add_comm]
      exact Nat.add_le_add c.utf8Size_pos ih

/-- Of two prefixes the longer one has the longer code. -/
theorem length_utf8_take_lt {cs : List Char} {o o' : Nat} (h : o < o') (ho' : o' ≤ cs.length) :
    (utf8 (cs.take o)).length < (utf8 (cs.take o')).length := by
  have hsplit : cs.take o' = cs.take o ++ (cs.take o').drop o := by
    have := List.take_append_drop o (cs.take o')
    rwa [List.take_take, Nat.min_eq_left (Nat.le_of_lt h), eq_comm] at this
  have hmore : (cs.take o').drop o ≠ [] := by
    intro hnil
    have hlen := congrArg List.length hnil
    rw [List.length_drop, List.length_take, List.length_nil] at hlen
    omega
  rw [hsplit, utf8_append, List.length_append]
  exact Nat.lt_add_of_pos_right (utf8_pos hmore)

/-- Places in the code are in the order of the offsets that they belong to. -/
theorem length_utf8_take_lt_iff {cs : List Char} {o o' : Nat} (ho : o ≤ cs.length)
    (ho' : o' ≤ cs.length) :
    (utf8 (cs.take o)).length < (utf8 (cs.take o')).length ↔ o < o' := by
  constructor
  · intro hlt
    rcases Nat.lt_trichotomy o o' with hless | rfl | hmore
    · exact hless
    · exact absurd hlt (Nat.lt_irrefl _)
    · exact absurd hlt (Nat.lt_asymm (length_utf8_take_lt hmore ho))
  · intro hlt
    exact length_utf8_take_lt hlt ho'

/-- UTF-8 length of a run of chars. -/
def byteLength (cs : Array Char) : Nat := cs.foldl (fun n c => n + c.utf8Size) 0

theorem foldl_byteLength (cs : List Char) (n : Nat) :
    cs.foldl (fun n c => n + c.utf8Size) n = n + (utf8 cs).length := by
  induction cs generalizing n with
  | nil => rfl
  | cons c cs ih => rw [List.foldl_cons, ih, length_utf8_cons, Nat.add_assoc]

/-- The bytes that are counted are those that the text takes. -/
theorem byteLength_eq (cs : Array Char) : byteLength cs = (utf8 cs.toList).length := by
  rw [byteLength, ← Array.foldl_toList, foldl_byteLength, Nat.zero_add]

/-! ## Reading -/

/-- The byte where the code of the char `count` chars on begins, or the end of the code. -/
def skipChars (bytes : ByteArray) : (count i : Nat) → Nat
  | 0, i => i
  | count + 1, i =>
    match bytes.utf8DecodeChar? i with
    | some c => skipChars bytes count (i + c.utf8Size)
    | none => bytes.size

/-- Goes over the chars whose codes begin in the bytes from `i` up to `stop`, `room` chars at
    most, and hands on each with the byte where it begins. -/
@[specialize] def foldChars {σ : Type} (bytes : ByteArray) (stop : Nat)
    (f : σ → Nat → Char → σ) : (room i : Nat) → σ → σ
  | 0, _, s => s
  | room + 1, i, s =>
    if i < stop then
      match bytes.utf8DecodeChar? i with
      | some c => foldChars bytes stop f room (i + c.utf8Size) (f s i c)
      | none => s
    else s

/-- The chars in the bytes from `start` up to `stop`. -/
def decode (bytes : ByteArray) (start stop : Nat) : Array Char :=
  foldChars bytes stop (fun cs _ c => cs.push c) (stop - start) start #[]

/-- Number of chars in the bytes from `start` up to `stop`. -/
def countChars (bytes : ByteArray) (start stop : Nat) : Nat :=
  foldChars bytes stop (fun n _ _ => n + 1) (stop - start) start 0

/-- The last of the first `stop` bytes that is `b`. -/
def lastByte? (bytes : ByteArray) (b : UInt8) : (stop : Nat) → Option Nat
  | 0 => none
  | i + 1 => if bytes[i]? = some b then some i else lastByte? bytes b i

/-- The first of the `room` bytes from `i` on that is `b`. -/
def firstByte? (bytes : ByteArray) (b : UInt8) : (room i : Nat) → Option Nat
  | 0, _ => none
  | room + 1, i => if bytes[i]? = some b then some i else firstByte? bytes b room (i + 1)

/-! ## What is read of a code -/

/-- Bytes up to a boundary between two chars, or up to an end of the text. -/
def IsBoundary (cs : List Char) (byte : Nat) : Prop :=
  ∃ front back, cs = front ++ back ∧ byte = (utf8 front).length

theorem toList_utf8Encode (cs : List Char) : cs.utf8Encode.data.toList = utf8 cs :=
  List.toList_data_toByteArray

@[simp] theorem size_utf8Encode (cs : List Char) : cs.utf8Encode.size = (utf8 cs).length := by
  rw [← toList_utf8Encode, Array.length_toList, ByteArray.size_data]

theorem getElem?_utf8Encode (cs : List Char) (i : Nat) : cs.utf8Encode[i]? = (utf8 cs)[i]? := by
  by_cases h : i < cs.utf8Encode.size
  · have hlen : i < (utf8 cs).length := size_utf8Encode cs ▸ h
    rw [getElem?_pos cs.utf8Encode i h, List.getElem?_eq_getElem hlen]
    exact congrArg some List.getElem_toByteArray
  · rw [getElem?_neg cs.utf8Encode i h, List.getElem?_eq_none]
    exact size_utf8Encode cs ▸ Nat.le_of_not_lt h

section Code

variable (front mid back : List Char)

/-- The code up to where the front ends is the front's. -/
theorem extract_front : (front ++ back).utf8Encode.extract 0 (utf8 front).length =
    front.utf8Encode := by
  rw [List.utf8Encode_append, ← size_utf8Encode, ByteArray.extract_append_size_left,
    ByteArray.extract_zero_size]

/-- The code from where the front ends is the back's. -/
theorem extract_back : (front ++ back).utf8Encode.extract (utf8 front).length
    (front ++ back).utf8Encode.size = back.utf8Encode := by
  rw [List.utf8Encode_append, ← size_utf8Encode, ByteArray.size_append]
  exact ByteArray.extract_append_eq_right rfl rfl

/-- At a boundary the char behind it is read. -/
theorem decode_code (c : Char) :
    (front ++ c :: back).utf8Encode.utf8DecodeChar? (utf8 front).length = some c := by
  rw [ByteArray.utf8DecodeChar?_eq_utf8DecodeChar?_extract, extract_back,
    List.utf8DecodeChar?_utf8Encode_cons]

theorem length_utf8_snoc (c : Char) :
    (utf8 front).length + c.utf8Size = (utf8 (front ++ [c])).length := by
  rw [utf8_append, List.length_append, length_utf8_singleton]

/-- Some chars on from a boundary is the boundary behind those chars. -/
theorem skipChars_code : skipChars (front ++ (mid ++ back)).utf8Encode mid.length
    (utf8 front).length = (utf8 (front ++ mid)).length := by
  induction mid generalizing front with
  | nil => rw [List.append_nil, List.length_nil, skipChars]
  | cons c mid ih =>
      rw [List.length_cons, skipChars, List.cons_append, decode_code]
      simp only
      have hnext := ih (front ++ [c])
      rwa [List.append_assoc, List.append_assoc, List.singleton_append, List.singleton_append,
        ← length_utf8_snoc] at hnext

/-- The chars of a text, each with the byte where it begins, the first at `i`. -/
def positioned : (i : Nat) → List Char → List (Nat × Char)
  | _, [] => []
  | i, c :: cs => (i, c) :: positioned (i + c.utf8Size) cs

/-- From one boundary to another the chars between them are gone over. -/
theorem foldChars_code {σ : Type} (f : σ → Nat → Char → σ) {room : Nat} (s : σ)
    (hroom : mid.length ≤ room) :
    foldChars (front ++ (mid ++ back)).utf8Encode (utf8 (front ++ mid)).length f room
        (utf8 front).length s =
      (positioned (utf8 front).length mid).foldl (fun s p => f s p.1 p.2) s := by
  induction mid generalizing front room s with
  | nil =>
      cases room with
      | zero => rfl
      | succ room =>
        rw [List.append_nil, foldChars, if_neg (Nat.lt_irrefl _), positioned, List.foldl_nil]
  | cons c mid ih =>
      obtain ⟨room, rfl⟩ : ∃ r, room = r + 1 := Nat.exists_eq_succ_of_ne_zero (by
        intro hzero
        rw [hzero, List.length_cons] at hroom
        exact Nat.not_succ_le_zero _ hroom)
      have hlt : (utf8 front).length < (utf8 (front ++ c :: mid)).length := by
        rw [utf8_append, List.length_append]
        exact Nat.lt_add_of_pos_right (utf8_pos (List.cons_ne_nil c mid))
      rw [foldChars, if_pos hlt, List.cons_append, decode_code]
      simp only
      have hnext := ih (front ++ [c]) (f s (utf8 front).length c) (Nat.le_of_succ_le_succ hroom)
      rw [List.append_assoc, List.append_assoc, List.singleton_append, List.singleton_append,
        ← length_utf8_snoc] at hnext
      rw [hnext, positioned, List.foldl_cons]

/-- There are no more chars than bytes between two places. -/
theorem length_le_sub_utf8 :
    mid.length ≤ (utf8 (front ++ mid)).length - (utf8 front).length := by
  rw [utf8_append, List.length_append, Nat.add_sub_cancel_left]
  exact length_le_length_utf8 mid

/-- Reading gives the chars that are read. -/
theorem foldl_positioned_push (i : Nat) (acc : Array Char) :
    (positioned i mid).foldl (fun cs p => cs.push p.2) acc = acc ++ mid.toArray := by
  induction mid generalizing i acc with
  | nil => simp [positioned]
  | cons c mid ih =>
      rw [positioned, List.foldl_cons, ih]
      simp

theorem foldl_positioned_succ (i n : Nat) :
    (positioned i mid).foldl (fun n _ => n + 1) n = n + mid.length := by
  induction mid generalizing i n with
  | nil => rfl
  | cons c mid ih =>
      rw [positioned, List.foldl_cons, ih, List.length_cons]
      omega

/-- Between two boundaries the chars between them are decoded. -/
theorem decode_between : decode (front ++ (mid ++ back)).utf8Encode (utf8 front).length
    (utf8 (front ++ mid)).length = mid.toArray := by
  rw [decode, foldChars_code _ _ _ _ _ (length_le_sub_utf8 front mid), foldl_positioned_push]
  simp

/-- Between the places of two offsets lie the chars between the offsets. -/
theorem countChars_between : countChars (front ++ (mid ++ back)).utf8Encode (utf8 front).length
    (utf8 (front ++ mid)).length = mid.length := by
  rw [countChars, foldChars_code _ _ _ _ _ (length_le_sub_utf8 front mid), foldl_positioned_succ,
    Nat.zero_add]

/-- A code decodes to what it is the code of. -/
theorem decode_utf8Encode (cs : List Char) :
    decode cs.utf8Encode 0 cs.utf8Encode.size = cs.toArray := by
  have h := decode_between [] cs []
  rw [List.append_nil, List.nil_append, utf8_nil, List.length_nil] at h
  rwa [size_utf8Encode]

end Code

/-! ## Searching for a byte -/

section Search

variable {bytes : ByteArray} {b : UInt8}

/-- The last byte sought: none of the bytes behind it is one. -/
theorem lastByte?_eq_some {stop i : Nat} (h : lastByte? bytes b stop = some i) :
    i < stop ∧ bytes[i]? = some b ∧ ∀ j, i < j → j < stop → bytes[j]? ≠ some b := by
  induction stop with
  | zero => exact absurd h (Option.some_ne_none i).symm
  | succ stop ih =>
      rw [lastByte?] at h
      by_cases hb : bytes[stop]? = some b
      · rw [if_pos hb] at h
        obtain rfl := Option.some.inj h
        refine ⟨Nat.lt_succ_self _, hb, ?_⟩
        intro j hlt hle
        exact absurd (Nat.le_of_lt_succ hle) (Nat.not_le.2 hlt)
      · rw [if_neg hb] at h
        obtain ⟨hlt, hbyte, hnone⟩ := ih h
        refine ⟨Nat.lt_succ_of_lt hlt, hbyte, ?_⟩
        intro j hj hle
        rcases Nat.lt_succ_iff_lt_or_eq.1 hle with hless | rfl
        · exact hnone j hj hless
        · exact hb

/-- Where no byte is found going back, there is none. -/
theorem lastByte?_eq_none {stop : Nat} (h : lastByte? bytes b stop = none) :
    ∀ j < stop, bytes[j]? ≠ some b := by
  induction stop with
  | zero =>
      intro j hj
      exact absurd hj (Nat.not_lt_zero j)
  | succ stop ih =>
      rw [lastByte?] at h
      by_cases hb : bytes[stop]? = some b
      · rw [if_pos hb] at h
        exact absurd h (Option.some_ne_none stop)
      · rw [if_neg hb] at h
        intro j hj
        rcases Nat.lt_succ_iff_lt_or_eq.1 hj with hless | rfl
        · exact ih h j hless
        · exact hb

/-- The first byte sought: none of the bytes before it is one. -/
theorem firstByte?_eq_some {room start i : Nat} (h : firstByte? bytes b room start = some i) :
    start ≤ i ∧ bytes[i]? = some b ∧ ∀ j, start ≤ j → j < i → bytes[j]? ≠ some b := by
  induction room generalizing start with
  | zero => exact absurd h (Option.some_ne_none i).symm
  | succ room ih =>
      rw [firstByte?] at h
      by_cases hb : bytes[start]? = some b
      · rw [if_pos hb] at h
        obtain rfl := Option.some.inj h
        refine ⟨Nat.le_refl _, hb, ?_⟩
        intro j hle hlt
        exact absurd hle (Nat.not_le.2 hlt)
      · rw [if_neg hb] at h
        obtain ⟨hle, hbyte, hnone⟩ := ih h
        refine ⟨Nat.le_of_succ_le hle, hbyte, ?_⟩
        intro j hj hlt
        rcases Nat.eq_or_lt_of_le hj with rfl | hmore
        · exact hb
        · exact hnone j hmore hlt

/-- Where no byte is found going forward, there is none as far as the search went. -/
theorem firstByte?_eq_none {room start : Nat} (h : firstByte? bytes b room start = none) :
    ∀ j, start ≤ j → j < start + room → bytes[j]? ≠ some b := by
  induction room generalizing start with
  | zero =>
      intro j hle hlt
      exact absurd hle (Nat.not_le.2 hlt)
  | succ room ih =>
      rw [firstByte?] at h
      by_cases hb : bytes[start]? = some b
      · rw [if_pos hb] at h
        exact absurd h (Option.some_ne_none start)
      · rw [if_neg hb] at h
        intro j hle hlt
        rcases Nat.eq_or_lt_of_le hle with rfl | hmore
        · exact hb
        · exact ih h j hmore (by omega)

end Search

end Highlighter
