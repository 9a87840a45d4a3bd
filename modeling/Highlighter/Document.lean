import Highlighter.Document.Code
import Highlighter.Document.Readable

/-! # Documents — editable text with an index

    A document is the UTF-8 code of a text, with an index that every edit rebuilds: the
    number of chars, and the byte offset of every 64th char, which brings any char within a
    short walk.  Offsets are given in chars; whatever is read or spliced is found by its
    byte offset.  The type says that the code is well formed and the index that of the code.

    What a document means is the array of its chars (`Document.chars`).  The code is that of
    the chars (`bytes_eq`), a byte offset is the length of the code of what comes before
    (`byteOffset_eq`), and reading and editing is reading and editing of the chars
    (`charAt?_eq`, `slice_eq`, `chars_insert`, `chars_delete`). -/

namespace Highlighter

/-- Chars between two byte marks. -/
def markStride : Nat := 64

/-- One char of the index scan, which begins at `byte`: the chars seen so far, and the marks. -/
def markStep : Nat × Array Nat → (byte : Nat) → Char → Nat × Array Nat
  | (count, marks), byte, _ =>
    (count + 1, if count % markStride = 0 then marks.push byte else marks)

/-- Number of chars of a code, and where every 64th of them begins. -/
structure CharIndex where
  length : Nat
  /-- Byte offsets of the chars 0, 64, 128 and so on; one mark at the least. -/
  marks  : Array Nat

/-- The index of a code, by one scan. -/
def CharIndex.of (bytes : ByteArray) : CharIndex :=
  let (length, marks) := foldChars bytes bytes.size markStep bytes.size 0 (0, #[])
  { length, marks := if marks.isEmpty then #[0] else marks }

/-- Text under edit: its code, and the index of the code. -/
structure Document where
  bytes    : ByteArray
  index    : CharIndex
  valid    : bytes.IsValidUTF8
  index_eq : index = CharIndex.of bytes

namespace Document

/-- The document of a code. -/
def ofBytes (bytes : ByteArray) (valid : bytes.IsValidUTF8) : Document :=
  ⟨bytes, CharIndex.of bytes, valid, rfl⟩

def ofString (s : String) : Document := ofBytes s.toByteArray s.isValidUTF8

def ofChars (cs : Array Char) : Document := ofString (String.ofList cs.toList)

def empty : Document := ofString ""

instance : Inhabited Document := ⟨empty⟩

/-- The whole text. -/
def text (d : Document) : String := String.ofByteArray d.bytes d.valid

/-- The chars of the text. -/
def chars (d : Document) : Array Char := decode d.bytes 0 d.bytes.size

/-- Number of chars. -/
def length (d : Document) : Nat := d.index.length

/-- Byte offsets of every 64th char. -/
def marks (d : Document) : Array Nat := d.index.marks

variable (d : Document)

/-! ## The index -/

/-- The code of a document is that of its chars. -/
theorem bytes_eq : d.bytes = d.chars.toList.utf8Encode := by
  obtain ⟨cs, hcs⟩ := d.valid
  rw [chars, hcs, decode_utf8Encode]

/-- The code has just the bytes of the chars. -/
theorem size_bytes : d.bytes.size = (utf8 d.chars.toList).length := by
  rw [← size_utf8Encode, ← bytes_eq]

/-- What the index scan has come to after some chars: their number, and a mark for each of them
    whose number is a multiple of the stride. -/
structure Tallied (cs : List Char) (acc : Nat × Array Nat) : Prop where
  count : acc.1 = cs.length
  size  : acc.2.size = (cs.length + 63) / markStride
  marks : ∀ k, k * markStride < cs.length →
    acc.2[k]? = some (utf8 (cs.take (k * markStride))).length

/-- One char more keeps the tally. -/
theorem Tallied.step {cs : List Char} {acc : Nat × Array Nat} (h : Tallied cs acc) (c : Char) :
    Tallied (cs ++ [c]) (markStep acc (utf8 cs).length c) := by
  obtain ⟨count, marks⟩ := acc
  obtain ⟨hcount, hsize, hmarks⟩ := h
  simp only at hcount hsize hmarks
  have hlen : (cs ++ [c]).length = cs.length + 1 := List.length_append
  have hcount' : count + 1 = (cs ++ [c]).length := by rw [hlen, hcount]
  have hold : ∀ k, k * markStride ≤ cs.length → (cs ++ [c]).take (k * markStride) =
      cs.take (k * markStride) := fun k hk => List.take_append_of_le_length hk
  have hstride : markStride = 64 := rfl
  rw [hstride] at hsize
  simp only [hstride] at hmarks hold
  rw [markStep]
  by_cases hmark : count % markStride = 0
  · -- The char begins a run of its own and is marked.
    rw [if_pos hmark]
    rw [hstride] at hmark
    have hsize' : (marks.push (utf8 cs).length).size = ((cs ++ [c]).length + 63) / markStride := by
      rw [Array.size_push, hstride, hlen]
      omega
    refine ⟨hcount', hsize', ?_⟩
    intro k hk
    rw [hstride, hlen] at hk
    rw [hstride, hold k (by omega)]
    by_cases hlast : k * 64 < cs.length
    · rw [Array.getElem?_push_lt (by omega), ← hmarks k hlast, Array.getElem?_eq_getElem]
    · have hk : k = marks.size := by omega
      have hall : k * 64 = cs.length := by omega
      rw [hall, List.take_length, hk, Array.getElem?_push_size]
  · rw [if_neg hmark]
    rw [hstride] at hmark
    have hsize' : marks.size = ((cs ++ [c]).length + 63) / markStride := by
      rw [hstride, hlen]
      omega
    refine ⟨hcount', hsize', ?_⟩
    intro k hk
    rw [hstride, hlen] at hk
    rw [hstride, hold k (by omega)]
    exact hmarks k (by omega)

/-- Any more chars keep the tally. -/
theorem Tallied.foldl {cs : List Char} {acc : Nat × Array Nat} (h : Tallied cs acc)
    (more : List Char) : Tallied (cs ++ more)
      ((positioned (utf8 cs).length more).foldl (fun acc p => markStep acc p.1 p.2) acc) := by
  induction more generalizing cs acc with
  | nil => rwa [List.append_nil]
  | cons c more ih =>
      have hmore := ih (h.step c)
      rwa [List.append_assoc, ← length_utf8_snoc] at hmore

/-- The scan of a whole code tallies its chars. -/
theorem tallied_scan (cs : List Char) : Tallied cs
    (foldChars cs.utf8Encode cs.utf8Encode.size markStep cs.utf8Encode.size 0 (0, #[])) := by
  have hstart : Tallied [] (0, #[]) :=
    ⟨rfl, rfl, fun k hk => absurd hk (Nat.not_lt_zero _)⟩
  have hroom : cs.length ≤ cs.utf8Encode.size := size_utf8Encode cs ▸ length_le_length_utf8 cs
  have hfold := foldChars_code [] cs [] markStep (0, #[]) hroom
  rw [List.append_nil, List.nil_append, utf8_nil, List.length_nil, ← size_utf8Encode] at hfold
  rw [hfold]
  exact hstart.foldl cs

/-- The index holds the number of chars. -/
theorem length_eq : d.length = d.chars.size := by
  have htally := tallied_scan d.chars.toList
  rw [← d.bytes_eq] at htally
  rw [length, d.index_eq, ← Array.length_toList]
  exact htally.count

/-- The index marks every 64th char, and the start of the text in any case. -/
theorem getElem?_marks {k : Nat} (hk : k = 0 ∨ k * markStride < d.length) :
    d.marks[k]? = some (utf8 (d.chars.toList.take (k * markStride))).length := by
  have htally := tallied_scan d.chars.toList
  rw [← d.bytes_eq] at htally
  rw [d.length_eq, ← Array.length_toList] at hk
  rw [marks, d.index_eq, CharIndex.of]
  simp only
  by_cases hsome : d.chars.toList = []
  · -- The empty text has one mark, which no char gave.
    have hzero : k = 0 := by simpa [hsome] using hk
    have hsize := htally.size
    rw [hsome, List.length_nil] at hsize
    rw [if_pos (Array.isEmpty_iff_size_eq_zero.2 hsize), hzero, Nat.zero_mul, List.take_zero]
    rfl
  · have hpos := List.length_pos_iff.2 hsome
    have hsize := htally.size
    rw [markStride] at hsize
    rw [if_neg (by rw [Array.isEmpty_iff_size_eq_zero, hsize]; omega)]
    exact htally.marks k (by rcases hk with rfl | hk <;> omega)

/-- There are as many marks as runs of 64 chars, the last one not full perhaps. -/
theorem size_marks : d.marks.size = max ((d.length + 63) / markStride) 1 := by
  have htally := tallied_scan d.chars.toList
  rw [← d.bytes_eq] at htally
  have hsize := htally.size
  rw [Array.length_toList, ← d.length_eq] at hsize
  rw [marks, d.index_eq, CharIndex.of]
  simp only
  split
  · rename_i hnone
    rw [Array.isEmpty_iff_size_eq_zero, hsize] at hnone
    rw [hnone]
    rfl
  · rename_i hsome
    rw [Array.isEmpty_iff_size_eq_zero, hsize] at hsome
    omega

/-- The run of 64 chars that a char is in has a mark. -/
theorem mark_lt {o : Nat} (h : o < d.length) : o / markStride < d.marks.size := by
  rw [size_marks, markStride]
  omega

/-! ## Offsets -/

/-- Byte offset of a char offset; past the end, the byte length of the text. -/
def byteOffset (o : Nat) : Nat :=
  if h : d.length ≤ o then d.bytes.size
  else
    have := d.mark_lt (Nat.lt_of_not_le h)
    skipChars d.bytes (o % markStride) d.marks[o / markStride]

/-- Char offset of a byte offset between two chars: those up to the last mark that is not past
    it, and those that are counted from there on. -/
def charOffset (byte : Nat) : Nat :=
  let byte := min byte d.bytes.size
  let mark := (d.marks.findIdx? (byte < ·)).getD d.marks.size - 1
  mark * markStride + countChars d.bytes (d.marks.getD mark 0) byte

/-- The first char boundary at or after a byte offset, none past the end of the text. -/
def boundaryFrom? (byte : Nat) : Option Nat :=
  if d.bytes.size < byte then none else some (d.charOffset byte)

/-- A byte offset is the length of the code of what comes before. -/
theorem byteOffset_eq (o : Nat) : d.byteOffset o = (utf8 (d.chars.toList.take o)).length := by
  rw [byteOffset]
  split
  · rename_i hle
    rw [d.length_eq, ← Array.length_toList] at hle
    rw [List.take_of_length_le hle, size_bytes]
  · rename_i hlt
    have hlt := Nat.lt_of_not_le hlt
    have hmark : o / markStride * markStride ≤ o := Nat.div_mul_le_self _ _
    have hget := d.getElem?_marks (k := o / markStride) (.inr (by omega))
    have hrun := d.mark_lt hlt
    rw [Array.getElem?_eq_getElem hrun] at hget
    show skipChars d.bytes (o % markStride) d.marks[o / markStride] = _
    rw [Option.some.inj hget]
    -- the chars up to the mark, those from there to the offset, and the rest
    have hrest := List.take_append_drop o d.chars.toList
    have hsplit := List.take_append_drop (o / markStride * markStride) (d.chars.toList.take o)
    rw [List.take_take, Nat.min_eq_left hmark] at hsplit
    have hskip : o % markStride =
        ((d.chars.toList.take o).drop (o / markStride * markStride)).length := by
      have hmod := Nat.mod_add_div o markStride
      rw [Nat.mul_comm] at hmod
      rw [List.length_drop, List.length_take, Array.length_toList, ← d.length_eq]
      omega
    have hwalk := skipChars_code (d.chars.toList.take (o / markStride * markStride))
      ((d.chars.toList.take o).drop (o / markStride * markStride)) (d.chars.toList.drop o)
    rw [← hskip, ← List.append_assoc, hsplit, hrest, ← d.bytes_eq] at hwalk
    exact hwalk

/-- The code before an offset is that of the chars before it. -/
theorem extract_before (o : Nat) :
    d.bytes.extract 0 (d.byteOffset o) = (d.chars.toList.take o).utf8Encode := by
  have hfront := extract_front (d.chars.toList.take o) (d.chars.toList.drop o)
  rwa [List.take_append_drop, ← d.bytes_eq, ← byteOffset_eq] at hfront

/-- The code from an offset on is that of the chars from there on. -/
theorem extract_behind (o : Nat) :
    d.bytes.extract (d.byteOffset o) d.bytes.size = (d.chars.toList.drop o).utf8Encode := by
  have hback := extract_back (d.chars.toList.take o) (d.chars.toList.drop o)
  rwa [List.take_append_drop, ← d.bytes_eq, ← byteOffset_eq] at hback

/-- What comes before an offset is a code of its own. -/
theorem valid_before (o : Nat) : (d.bytes.extract 0 (d.byteOffset o)).IsValidUTF8 :=
  ⟨_, d.extract_before o⟩

/-- What comes from an offset on is a code of its own. -/
theorem valid_behind (o : Nat) :
    (d.bytes.extract (d.byteOffset o) d.bytes.size).IsValidUTF8 :=
  ⟨_, d.extract_behind o⟩

/-! ## Reading -/

/-- The char at an offset, none past the end. -/
def charAt? (o : Nat) : Option Char :=
  if d.length ≤ o then none else d.bytes.utf8DecodeChar? (d.byteOffset o)

/-- The chars of an extent, as far as the document has them. -/
def slice (e : Extent) : Array Char :=
  decode d.bytes (d.byteOffset e.start) (d.byteOffset (max e.stop e.start))

/-- The byte of a newline. -/
def newlineByte : UInt8 := 10

/-- Just after the last newline before `o`. -/
def lineStart (o : Nat) : Nat :=
  match lastByte? d.bytes newlineByte (d.byteOffset o) with
  | some byte => d.charOffset (byte + 1)
  | none => 0

/-- The first newline at or after `o`, or the length. -/
def lineEnd (o : Nat) : Nat :=
  let byte := d.byteOffset o
  match firstByte? d.bytes newlineByte (d.bytes.size - byte) byte with
  | some byte => d.charOffset byte
  | none => d.length

instance : Readable Document where
  length := length
  charAt? := charAt?
  slice := slice
  lineStart := lineStart
  lineEnd := lineEnd

/-- The least line start at or after `o`, or the length. -/
def snapForward (o : Nat) : Nat := Readable.snapForward d o

/-- Whole lines around `e`. -/
def snapToLines (e : Extent) : Extent := Readable.snapToLines d e

/-! ## Edits -/

/-- The document with `cs` put in at `pos`, or at the end when that lies past it. -/
def insert (pos : Nat) (cs : Array Char) : Document :=
  let byte := d.byteOffset (min pos d.length)
  let more := String.ofList cs.toList
  ofBytes (d.bytes.extract 0 byte ++ more.toByteArray ++ d.bytes.extract byte d.bytes.size)
    (((d.valid_before _).append more.isValidUTF8).append (d.valid_behind _))

/-- The document without the chars of `e`, and those chars. -/
def remove (e : Extent) : Document × Array Char :=
  let start := d.byteOffset (min e.start d.length)
  let stop := d.byteOffset (min e.stop d.length)
  if stop ≤ start then (d, #[])
  else
    (ofBytes (d.bytes.extract 0 start ++ d.bytes.extract stop d.bytes.size)
      ((d.valid_before _).append (d.valid_behind _)), decode d.bytes start stop)

/-- The document without the chars of `e`. -/
def delete (e : Extent) : Document := (d.remove e).1

/-! ## What is read, in chars -/

@[simp] theorem chars_ofString (s : String) : (ofString s).chars = s.toList.toArray := by
  show decode s.toByteArray 0 s.toByteArray.size = _
  rw [← String.utf8Encode_toList, decode_utf8Encode]

@[simp] theorem chars_ofChars (cs : Array Char) : (ofChars cs).chars = cs := by
  rw [ofChars, chars_ofString, String.toList_ofList, Array.toArray_toList]

/-- A document whose code is that of some chars has these chars. -/
theorem chars_ofBytes {bytes : ByteArray} {valid : bytes.IsValidUTF8} {cs : List Char}
    (h : bytes = cs.utf8Encode) : (ofBytes bytes valid).chars = cs.toArray := by
  subst h
  exact decode_utf8Encode cs

/-- Documents with the same chars are the same. -/
theorem ext_chars {d d' : Document} (h : d.chars = d'.chars) : d = d' := by
  have hbytes : d.bytes = d'.bytes := by rw [d.bytes_eq, d'.bytes_eq, h]
  obtain ⟨bytes, index, valid, hindex⟩ := d
  obtain ⟨bytes', index', valid', hindex'⟩ := d'
  obtain rfl : bytes = bytes' := hbytes
  obtain rfl := hindex.trans hindex'.symm
  rfl

/-- The text that is read out of the code is the one in it. -/
theorem text_eq : d.text = String.ofList d.chars.toList := by
  rw [← String.toByteArray_inj, String.toByteArray_ofList]
  exact d.bytes_eq

/-- From one offset to another the chars between them are decoded. -/
theorem decode_byteOffset {o o' : Nat} (h : o ≤ o') :
    decode d.bytes (d.byteOffset o) (d.byteOffset o') = d.chars.extract o o' := by
  have hrest := List.take_append_drop o' d.chars.toList
  have hsplit := List.take_append_drop o (d.chars.toList.take o')
  rw [List.take_take, Nat.min_eq_left h] at hsplit
  have hread := decode_between (d.chars.toList.take o)
    ((d.chars.toList.take o').drop o) (d.chars.toList.drop o')
  rw [← List.append_assoc, hsplit, hrest, ← d.bytes_eq, ← byteOffset_eq, ← byteOffset_eq] at hread
  rw [hread, ← Array.toList_inj, List.toList_toArray, Array.toList_extract,
    List.extract_eq_drop_take']

/-- A char is read where its code begins. -/
theorem charAt?_eq (o : Nat) : d.charAt? o = d.chars[o]? := by
  rw [charAt?]
  split
  · rename_i hle
    exact (Array.getElem?_eq_none (d.length_eq ▸ hle)).symm
  · rename_i hlt
    have hlt : o < d.chars.toList.length := by
      rw [Array.length_toList, ← d.length_eq]
      exact Nat.lt_of_not_le hlt
    have hread := decode_code (d.chars.toList.take o) (d.chars.toList.drop (o + 1))
      d.chars.toList[o]
    rw [List.getElem_cons_drop, List.take_append_drop, ← d.bytes_eq, ← byteOffset_eq] at hread
    rw [hread, ← Array.getElem?_toList, List.getElem?_eq_getElem hlt]

theorem lt_length_of_charAt? {o : Nat} {c : Char} (h : d.charAt? o = some c) : o < d.length := by
  refine Nat.not_le.1 ?_
  intro hle
  rw [charAt?, if_pos hle] at h
  exact absurd h.symm (Option.some_ne_none c)

/-- A slice is cut out of the chars. -/
theorem slice_eq (e : Extent) : d.slice e = d.chars.extract e.start e.stop := by
  rw [slice, decode_byteOffset d (Nat.le_max_right _ _)]
  by_cases h : e.start ≤ e.stop
  · rw [Nat.max_eq_left h]
  · rw [Nat.max_eq_right (Nat.le_of_not_le h), Array.extract_empty_of_stop_le_start (Nat.le_refl _),
      Array.extract_empty_of_stop_le_start (Nat.le_of_not_le h)]

theorem take_min_length (o : Nat) :
    d.chars.toList.take (min o d.length) = d.chars.toList.take o := by
  rw [d.length_eq, ← Array.length_toList]
  exact List.take_eq_take_min.symm

/-- Past the end every offset has the same place in the code. -/
theorem byteOffset_min (o : Nat) : d.byteOffset (min o d.length) = d.byteOffset o := by
  rw [byteOffset_eq, byteOffset_eq, take_min_length]

/-- Byte offsets keep the order of offsets of the text. -/
theorem byteOffset_lt_iff (o o' : Nat) :
    d.byteOffset o < d.byteOffset o' ↔ min o d.length < min o' d.length := by
  rw [byteOffset_eq, byteOffset_eq, ← d.take_min_length o, ← d.take_min_length o']
  apply length_utf8_take_lt_iff
  · rw [Array.length_toList, d.length_eq]
    exact Nat.min_le_right _ _
  · rw [Array.length_toList, d.length_eq]
    exact Nat.min_le_right _ _

/-! ## What is edited, in chars -/

/-- An insertion puts chars in. -/
theorem chars_insert (pos : Nat) (cs : Array Char) :
    (d.insert pos cs).chars = d.chars.extract 0 pos ++ cs ++ d.chars.extract pos d.chars.size := by
  have hbytes : d.bytes.extract 0 (d.byteOffset (min pos d.length)) ++
      (String.ofList cs.toList).toByteArray ++
      d.bytes.extract (d.byteOffset (min pos d.length)) d.bytes.size =
      (d.chars.toList.take pos ++ cs.toList ++ d.chars.toList.drop pos).utf8Encode := by
    rw [byteOffset_min, extract_before, extract_behind, String.toByteArray_ofList,
      List.utf8Encode_append, List.utf8Encode_append]
  rw [insert, chars_ofBytes hbytes, ← Array.toList_inj]
  simp only [Array.toList_append, Array.toList_extract, List.extract_eq_drop_take']
  rw [List.drop_zero, ← Array.length_toList, List.take_length]

/-- A removal of nothing. -/
theorem remove_of_le {e : Extent} (h : e.stop ≤ e.start) : d.remove e = (d, #[]) := by
  have hle : d.byteOffset (min e.stop d.length) ≤ d.byteOffset (min e.start d.length) := by
    rw [byteOffset_min, byteOffset_min]
    refine Nat.not_lt.1 ?_
    intro hlt
    have := (d.byteOffset_lt_iff _ _).1 hlt
    omega
  exact if_pos hle

/-- A removal takes chars out, and hands them on. -/
theorem chars_remove {e : Extent} (h : e.start < e.stop) :
    (d.remove e).1.chars = d.chars.extract 0 e.start ++ d.chars.extract e.stop d.chars.size ∧
      (d.remove e).2 = d.chars.extract e.start e.stop := by
  simp only [remove, byteOffset_min]
  by_cases hlt : d.byteOffset e.start < d.byteOffset e.stop
  · rw [if_neg (Nat.not_le.2 hlt)]
    have hbytes : d.bytes.extract 0 (d.byteOffset e.start) ++
        d.bytes.extract (d.byteOffset e.stop) d.bytes.size =
        (d.chars.toList.take e.start ++ d.chars.toList.drop e.stop).utf8Encode := by
      rw [extract_before, extract_behind, List.utf8Encode_append]
    refine ⟨?_, d.decode_byteOffset (Nat.le_of_lt h)⟩
    rw [chars_ofBytes hbytes, ← Array.toList_inj]
    simp only [Array.toList_append, Array.toList_extract, List.extract_eq_drop_take']
    rw [List.drop_zero, ← Array.length_toList, List.take_length]
  · -- The extent lies past the end.
    rw [if_pos (Nat.le_of_not_lt hlt)]
    have hpast : d.chars.size ≤ e.start := by
      rw [byteOffset_lt_iff, d.length_eq] at hlt
      omega
    constructor
    · rw [Array.extract_eq_self_of_le hpast, Array.extract_empty_of_size_le_start (by omega),
        Array.append_empty]
    · rw [Array.extract_empty_of_size_le_start hpast]

/-- Nothing is deleted from an extent without chars. -/
theorem delete_of_le {e : Extent} (h : e.stop ≤ e.start) : d.delete e = d :=
  congrArg Prod.fst (d.remove_of_le h)

/-- A deletion takes chars out. -/
theorem chars_delete {e : Extent} (h : e.start < e.stop) :
    (d.delete e).chars = d.chars.extract 0 e.start ++ d.chars.extract e.stop d.chars.size :=
  (d.chars_remove h).1

/-- A removal hands on what a slice reads. -/
theorem remove_snd (e : Extent) : (d.remove e).2 = d.slice e := by
  rw [slice_eq]
  rcases Nat.lt_or_ge e.start e.stop with h | h
  · exact (d.chars_remove h).2
  · rw [d.remove_of_le h, Array.extract_empty_of_stop_le_start h]

end Document

end Highlighter
