import Mathlib.Data.List.Basic
import Mathlib.Tactic.SplitIfs
import Lookahead.CommandLine.Input

/-!
# Lines of bytes and lines of text

A character beyond ASCII is encoded by bytes that are no ASCII characters. So an ASCII byte stands
for its character wherever it is found among the bytes of a text (`decode?_append_cons`), and bytes
can be cut at feeds and returns before they are decoded or after that: the lines are the same
(`mapM_decode?_byteLines`).

`lines_induct` : what holds of a last line without a feed, and of a line and a feed in front of
what it holds of, holds of all sequences.
-/

namespace Lookahead

namespace Text

/-! ## Line by line -/

section

variable {α : Type} {feed ret x : α}

/-- Induction over the lines of a sequence. -/
@[elab_as_elim]
theorem lines_induct {motive : List α → Prop} (feed : α) (nil : motive [])
    (last : ∀ line, line ≠ [] → feed ∉ line → motive line)
    (line : ∀ line rest, feed ∉ line → motive rest → motive (line ++ feed :: rest))
    (xs : List α) : motive xs := by
  induction hn : xs.length using Nat.strongRecOn generalizing xs with
  | _ n ih =>
    by_cases hfeed : feed ∈ xs
    · obtain ⟨front, rest, rfl, hfront⟩ := List.eq_append_cons_of_mem hfeed
      refine line front rest hfront (ih rest.length ?_ rest rfl)
      rw [← hn, List.length_append, List.length_cons]
      omega
    · by_cases hnil : xs = []
      · exact hnil ▸ nil
      · exact last xs hnil hfeed

variable [BEq α] [LawfulBEq α] {line : List α}

theorem linesBy_of_not_mem (hne : line ≠ []) (h : feed ∉ line) :
    linesBy feed ret line = [line] := by
  rw [linesBy, List.splitOn_eq_singleton h, linesOfPieces, if_neg (by simpa using hne)]

theorem linesBy_append_cons (h : feed ∉ line) (rest : List α) :
    linesBy feed ret (line ++ feed :: rest) = dropReturn ret line :: linesBy feed ret rest := by
  rw [linesBy, List.splitOn_append_cons_self_of_not_mem h, linesBy]
  cases hrest : rest.splitOn feed with
  | nil => exact absurd hrest (List.splitOn_ne_nil feed rest)
  | cons piece pieces => rfl

@[simp] theorem dropReturn_concat_self (ret : α) (line : List α) :
    dropReturn ret (line ++ [ret]) = line := by
  simp [dropReturn]

theorem dropReturn_concat_of_ne (h : x ≠ ret) (line : List α) :
    dropReturn ret (line ++ [x]) = line ++ [x] := by
  simp [dropReturn, h]

end

end Text

namespace CommandLine

open Text

variable {c mark : Char} {b : UInt8} {cs : List Char} {bytes front rest : List UInt8}

/-! ## ASCII bytes -/

theorem encode_ofList (cs : List Char) :
    encode (String.ofList cs) = cs.flatMap String.utf8EncodeChar := by
  rw [encode, String.toUTF8_eq_toByteArray, String.toByteArray_ofList, List.utf8Encode,
    List.data_toByteArray]

theorem high_ofNat {n : Nat} (h : 128 ≤ n % 256) (hb : b.toNat < 128) : b ≠ UInt8.ofNat n := by
  rintro rfl
  rw [UInt8.toNat_ofNat'] at hb
  omega

/-- An ASCII byte belongs to its character alone. -/
theorem utf8EncodeChar_eq_of_mem (hb : b.toNat < 128) (h : b ∈ String.utf8EncodeChar c) :
    String.utf8EncodeChar c = [b] ∧ c.val.toNat = b.toNat := by
  simp only [String.utf8EncodeChar] at h ⊢
  by_cases hascii : c.val.toNat ≤ 127
  · rw [if_pos hascii] at h ⊢
    obtain rfl := List.mem_singleton.mp h
    rw [UInt8.toNat_ofNat']
    exact ⟨rfl, by omega⟩
  · -- all bytes of other characters have the high bit
    rw [if_neg hascii] at h
    split_ifs at h <;> simp only [List.mem_cons, List.not_mem_nil, or_false] at h
    · rcases h with h | h <;> exact absurd h (high_ofNat (by omega) hb)
    · rcases h with h | h | h <;> exact absurd h (high_ofNat (by omega) hb)
    · rcases h with h | h | h | h <;> exact absurd h (high_ofNat (by omega) hb)

/-- The character `mark` is encoded by the ASCII byte `b`. -/
structure IsAscii (mark : Char) (b : UInt8) : Prop where
  bytes : String.utf8EncodeChar mark = [b]
  lt : b.toNat < 128

theorem isAscii_feed : IsAscii '\n' 0x0a := ⟨rfl, by decide⟩

theorem isAscii_return : IsAscii '\r' 0x0d := ⟨rfl, by decide⟩

namespace IsAscii

variable (h : IsAscii mark b)
include h

theorem mem_utf8EncodeChar_iff : b ∈ String.utf8EncodeChar c ↔ c = mark := by
  constructor
  · intro hmem
    have hmark := utf8EncodeChar_eq_of_mem (c := mark) h.lt (by simp [h.bytes])
    refine Char.ext (UInt32.toNat_inj.mp ?_)
    rw [(utf8EncodeChar_eq_of_mem h.lt hmem).2, hmark.2]
  · rintro rfl
    simp [h.bytes]

theorem mem_encode_iff : b ∈ encode (String.ofList cs) ↔ mark ∈ cs := by
  simp [encode_ofList, h.mem_utf8EncodeChar_iff]

/-- An ASCII byte among the bytes of a text is found where its character is. -/
theorem exists_of_encode_eq (hcs : encode (String.ofList cs) = front ++ b :: rest) :
    ∃ x y, cs = x ++ mark :: y ∧ encode (String.ofList x) = front ∧
      encode (String.ofList y) = rest := by
  simp only [encode_ofList] at hcs ⊢
  induction cs generalizing front with
  | nil => simp at hcs
  | cons c cs ih =>
    rw [List.flatMap_cons] at hcs
    have hgo {front : List UInt8} (hcs : cs.flatMap String.utf8EncodeChar = front ++ b :: rest) :
        ∃ x y, c :: cs = x ++ mark :: y ∧ x.flatMap String.utf8EncodeChar =
          String.utf8EncodeChar c ++ front ∧ y.flatMap String.utf8EncodeChar = rest := by
      obtain ⟨x, y, rfl, rfl, rfl⟩ := ih hcs
      exact ⟨c :: x, y, rfl, rfl, rfl⟩
    rcases List.append_eq_append_iff.mp hcs with ⟨z, rfl, hz⟩ | ⟨z, hc, hz⟩
    · exact hgo hz
    · cases z with
      | nil => simpa [hc] using @hgo [] hz.symm
      | cons b' z =>
        obtain ⟨rfl, rfl⟩ := List.cons.inj hz
        have hmem : b ∈ String.utf8EncodeChar c := by simp [hc]
        obtain rfl := h.mem_utf8EncodeChar_iff.mp hmem
        rw [h.bytes] at hc
        obtain ⟨rfl, hz⟩ := (List.append_eq_singleton_iff.mp hc.symm).resolve_right (by simp)
        obtain rfl := (List.cons.inj hz).2
        exact ⟨[], cs, rfl, rfl, rfl⟩

theorem encode_append_cons (x y : List Char) : encode (String.ofList (x ++ mark :: y)) =
    encode (String.ofList x) ++ b :: encode (String.ofList y) := by
  simp only [encode_ofList, List.flatMap_append, List.flatMap_cons, h.bytes, List.singleton_append]

/-- Bytes can be decoded in front of an ASCII byte and behind it. -/
theorem decode?_append_cons (front rest : List UInt8) : decode? (front ++ b :: rest) =
    (decode? front).bind fun x => (decode? rest).map fun y => x ++ mark :: y := by
  refine Option.ext fun cs => ?_
  simp only [Option.bind_eq_some_iff, Option.map_eq_some_iff, decode?_eq_some_iff]
  constructor
  · intro hcs
    obtain ⟨x, y, rfl, rfl, rfl⟩ := h.exists_of_encode_eq hcs.symm
    exact ⟨x, rfl, y, rfl, rfl⟩
  · rintro ⟨x, rfl, y, rfl, rfl⟩
    rw [h.encode_append_cons]

end IsAscii

/-! ## Lines -/

theorem decode?_nil : decode? [] = some [] :=
  decode?_eq_some_iff.mpr rfl

theorem feed_mem_iff (h : decode? bytes = some cs) : 0x0a ∈ bytes ↔ '\n' ∈ cs := by
  rw [decode?_eq_some_iff.mp h, isAscii_feed.mem_encode_iff]

/-- The return at the end of a line can be dropped before or after the line is decoded. -/
theorem decode?_dropReturn (line : List UInt8) :
    decode? (dropReturn 0x0d line) = (decode? line).map (dropReturn '\r') := by
  rcases List.eq_nil_or_concat' line with rfl | ⟨front, b, rfl⟩
  · rw [decode?_nil]
    rfl
  · by_cases hb : b = 0x0d
    · subst hb
      rw [dropReturn_concat_self, isAscii_return.decode?_append_cons, decode?_nil]
      cases decode? front <;> simp
    · rw [dropReturn_concat_of_ne hb]
      cases hline : decode? (front ++ [b]) with
      | none => rfl
      | some cs =>
        have hbytes := decode?_eq_some_iff.mp hline
        rcases List.eq_nil_or_concat' cs with rfl | ⟨x, c, rfl⟩
        · rfl
        · have hc : c ≠ '\r' := by
            rintro rfl
            rw [isAscii_return.encode_append_cons] at hbytes
            exact hb (List.cons.inj (List.append_inj' hbytes rfl).2).1
          rw [Option.map_some, dropReturn_concat_of_ne hc]

/-- The lines of bytes decode to the lines of the text. -/
theorem mapM_decode?_byteLines (bytes : List UInt8) :
    (byteLines bytes).mapM decode? = fileLines? bytes := by
  unfold fileLines? byteLines lines
  induction bytes using lines_induct (0x0a : UInt8) with
  | nil => simp [decode?_nil]
  | last line hne hfeed =>
    rw [linesBy_of_not_mem hne hfeed]
    cases hcs : decode? line with
    | none => simp [hcs]
    | some cs =>
      have hfeed' : '\n' ∉ cs := (not_congr (feed_mem_iff hcs)).mp hfeed
      have hne' : cs ≠ [] := by
        rintro rfl
        exact hne (decode?_eq_some_iff.mp hcs)
      simp [hcs, linesBy_of_not_mem hne' hfeed']
  | line line rest hfeed ih =>
    rw [linesBy_append_cons hfeed, List.mapM_cons, ih, decode?_dropReturn,
      isAscii_feed.decode?_append_cons]
    cases hcs : decode? line with
    | none => simp
    | some cs =>
      have hfeed' : '\n' ∉ cs := (not_congr (feed_mem_iff hcs)).mp hfeed
      cases decode? rest with
      | none => simp
      | some ds => simp [linesBy_append_cons hfeed']

end CommandLine

end Lookahead
