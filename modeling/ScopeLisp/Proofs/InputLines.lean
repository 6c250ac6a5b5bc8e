import ScopeLisp.Text.Blank
import ScopeLisp.Text.Lines

/-!
# The lines of an input

## Lines of bytes

A character beyond ASCII is encoded in bytes of its own, none of which looks
like an ASCII character.  The input can therefore be cut into lines before it
is decoded.

## Trimmed lines

The lines of a text are what stands between its newlines, except that a
carriage return before a newline is no part of a line and that nothing stands
behind the last newline of a text.  Neither makes a difference to lines that are
trimmed.
-/

namespace ScopeLisp
namespace Text

/-!
# UTF-8

A byte of a character is the character itself or lies beyond ASCII.
-/

def encode (text : List Char) : List UInt8 :=
  text.flatMap String.utf8EncodeChar

@[simp] theorem encode_nil : encode [] = [] := rfl

@[simp] theorem encode_cons (c : Char) (text : List Char) :
    encode (c :: text) = String.utf8EncodeChar c ++ encode text :=
  List.flatMap_cons

@[simp] theorem encode_append (first second : List Char) :
    encode (first ++ second) = encode first ++ encode second :=
  List.flatMap_append

theorem decode?_encode (text : List Char) : decode? (encode text) = some text := by
  have hbytes : (⟨(encode text).toArray⟩ : ByteArray) = (String.ofList text).toByteArray := by
    apply ByteArray.ext
    exact List.data_toByteArray.symm
  rw [decode?, hbytes, String.fromUTF8?, dif_pos (String.ofList text).isValidUTF8]
  exact congrArg some String.toList_ofList

theorem le_toNat_ofNat_mod_add (n : Nat) {width lead : Nat} (hwidth : 0 < width)
    (hlead : 0x80 ≤ lead) (hfits : width + lead ≤ 0x100) :
    0x80 ≤ (UInt8.ofNat (n % width + lead)).toNat := by
  have hlt := Nat.mod_lt n hwidth
  rw [UInt8.toNat_ofNat']
  omega

/-- A byte of a character is the character itself or lies beyond ASCII. -/
theorem toNat_of_mem_utf8EncodeChar {c : Char} {byte : UInt8}
    (h : byte ∈ String.utf8EncodeChar c) : byte.toNat = c.val.toNat ∨ 0x80 ≤ byte.toNat := by
  unfold String.utf8EncodeChar at h
  by_cases hascii : c.val.toNat ≤ 0x7f
  · rw [if_pos hascii, List.mem_singleton] at h
    rw [h, UInt8.toNat_ofNat']
    omega
  · right
    rw [if_neg hascii] at h
    repeat' split at h
    all_goals
      simp only [List.mem_cons, List.not_mem_nil, or_false] at h
      rcases h with rfl | h
      · exact le_toNat_ofNat_mod_add _ (by decide) (by decide) (by decide)
    · rw [h]
      exact le_toNat_ofNat_mod_add _ (by decide) (by decide) (by decide)
    · rcases h with rfl | rfl
      all_goals exact le_toNat_ofNat_mod_add _ (by decide) (by decide) (by decide)
    · rcases h with rfl | rfl | rfl
      all_goals exact le_toNat_ofNat_mod_add _ (by decide) (by decide) (by decide)

theorem eq_of_mem_utf8EncodeChar {a c : Char} (ha : a.val.toNat ≤ 0x7f) {byte : UInt8}
    (hbyte : byte.toNat = a.val.toNat) (h : byte ∈ String.utf8EncodeChar c) : c = a := by
  apply Char.ext
  apply UInt32.toNat.inj
  rcases toNat_of_mem_utf8EncodeChar h with hsame | hbeyond
  · exact hsame.symm.trans hbyte
  · omega

/-!
# Lines of bytes

A newline and a carriage return are one byte each, which occurs in no other
character.
-/

section Lines

variable {α : Type} [DecidableEq α] {newline mark : α}

theorem linesFrom_nil (current : List α) :
    linesFrom newline mark current [] = if current = [] then [] else [current.reverse] := by
  cases current with
  | nil => rfl
  | cons c current => rfl

theorem linesFrom_newline (current rest : List α) :
    linesFrom newline mark current (newline :: rest) =
      dropLastMark mark current.reverse :: linesFrom newline mark [] rest := by
  rw [linesFrom, if_pos rfl]

theorem linesFrom_cons_of_ne {c : α} (hc : c ≠ newline) (current rest : List α) :
    linesFrom newline mark current (c :: rest) = linesFrom newline mark (c :: current) rest := by
  rw [linesFrom, if_neg hc]

theorem linesFrom_append {part : List α} (hpart : newline ∉ part) (current rest : List α) :
    linesFrom newline mark current (part ++ rest) =
      linesFrom newline mark (part.reverse ++ current) rest := by
  induction part generalizing current with
  | nil =>
      rfl
  | cons c part ih =>
      rcases not_or.mp (mt List.mem_cons.mpr hpart) with ⟨hne, hpart⟩
      rw [List.cons_append, linesFrom_cons_of_ne (Ne.symm hne), ih hpart, List.reverse_cons,
        List.append_assoc, List.singleton_append]

end Lines

theorem dropLastMark_encode (line : List Char) :
    dropLastMark 0x0D (encode line) = encode (dropLastMark '\r' line) := by
  rcases List.eq_nil_or_concat line with rfl | ⟨before, c, rfl⟩
  · rfl
  · rw [List.concat_eq_append]
    by_cases hc : c = '\r'
    · subst hc
      have hmark : String.utf8EncodeChar '\r' = [0x0D] := rfl
      simp [dropLastMark, hmark]
    · have hlast : (String.utf8EncodeChar c).getLast? ≠ some 0x0D := by
        intro hlast
        exact hc (eq_of_mem_utf8EncodeChar (by decide) rfl (List.mem_of_getLast? hlast))
      simp [dropLastMark, hc, hlast]

theorem linesFrom_encode (current text : List Char) :
    linesFrom 0x0A 0x0D (encode current.reverse).reverse (encode text) =
      (linesFrom '\n' '\r' current text).map encode := by
  induction text generalizing current with
  | nil =>
      rw [encode_nil, linesFrom_nil, linesFrom_nil]
      cases current with
      | nil =>
          rfl
      | cons c current =>
          simp
  | cons c text ih =>
      rw [encode_cons]
      by_cases hc : c = '\n'
      · subst hc
        have hnewline : String.utf8EncodeChar '\n' = [0x0A] := rfl
        rw [hnewline, List.singleton_append, linesFrom_newline, linesFrom_newline,
          List.reverse_reverse, dropLastMark_encode, List.map_cons]
        exact congrArg _ (ih [])
      · have hpart : 0x0A ∉ String.utf8EncodeChar c := by
          intro hmem
          exact hc (eq_of_mem_utf8EncodeChar (by decide) rfl hmem)
        have hcurrent : (String.utf8EncodeChar c).reverse ++ (encode current.reverse).reverse =
            (encode (c :: current).reverse).reverse := by
          rw [List.reverse_cons, encode_append, List.reverse_append, encode_cons, encode_nil,
            List.append_nil]
        rw [linesFrom_append hpart, linesFrom_cons_of_ne hc, hcurrent, ih]

theorem decodedLines_encode (text : List Char) :
    decodedLines (encode text) = (lines text).map some := by
  have hlines : linesFrom 0x0A 0x0D [] (encode text) = (lines text).map encode :=
    linesFrom_encode [] text
  rw [decodedLines, hlines, List.map_map]
  exact List.map_congr_left fun line _ => decode?_encode line

/-!
# Trimmed lines

A carriage return is blank, and an empty line trims to nothing.
-/

theorem trimEnd_append_blank (line : List Char) {c : Char} (hc : isBlank c = true) :
    trimEnd (line ++ [c]) = trimEnd line := by
  rw [trimEnd, List.reverse_append, List.reverse_singleton, List.singleton_append,
    List.dropWhile_cons_of_pos hc, trimEnd]

theorem trim_append_blank (line : List Char) {c : Char} (hc : isBlank c = true) :
    trim (line ++ [c]) = trim line := by
  rw [trim, trim, List.dropWhile_append]
  split
  · rename_i hblank
    rw [List.isEmpty_iff.mp hblank, List.dropWhile_cons_of_pos hc]
    rfl
  · exact trimEnd_append_blank _ hc

theorem trim_dropLastMark (line : List Char) : trim (dropLastMark '\r' line) = trim line := by
  unfold dropLastMark
  split
  · rename_i hlast
    rcases List.getLast?_eq_some_iff.mp hlast with ⟨before, rfl⟩
    rw [List.dropLast_concat]
    exact (trim_append_blank before (by decide)).symm
  · rfl

theorem exists_trim (line : List Char) :
    ∃ before after, line = before ++ trim line ++ after ∧
      (∀ c ∈ before, isBlank c = true) ∧ ∀ c ∈ after, isBlank c = true := by
  let rest := line.dropWhile isBlank
  have hrest : rest = trimEnd rest ++ (rest.reverse.takeWhile isBlank).reverse := by
    rw [trimEnd, ← List.reverse_append, List.takeWhile_append_dropWhile, List.reverse_reverse]
  refine ⟨line.takeWhile isBlank, (rest.reverse.takeWhile isBlank).reverse, ?_, ?_, ?_⟩
  · rw [List.append_assoc, trim, ← hrest, List.takeWhile_append_dropWhile]
  · intro c hc
    exact List.all_eq_true.mp List.all_takeWhile c hc
  · intro c hc
    exact List.all_eq_true.mp List.all_takeWhile c (List.mem_reverse.mp hc)

theorem modifyHead_nothing (lines : List (List Char)) :
    lines.modifyHead (([] : List Char).reverse ++ ·) = lines :=
  congrFun List.modifyHead_id lines

/--
Up to trimming, the lines that are read are what stands between newlines, without
an empty line at the end.
-/
theorem linesFrom_splitOn (current text : List Char) :
    ∃ kept rest, (text.splitOn '\n').modifyHead (current.reverse ++ ·) = kept ++ rest ∧
      (linesFrom '\n' '\r' current text).map trim = kept.map trim ∧ ∀ line ∈ rest, line = [] := by
  induction text generalizing current with
  | nil =>
      cases current with
      | nil =>
          exact ⟨[], [[]], rfl, rfl, by simp⟩
      | cons c current =>
          exact ⟨[(c :: current).reverse], [], by simp, rfl, by simp⟩
  | cons c text ih =>
      by_cases hc : c = '\n'
      · subst hc
        rcases ih [] with ⟨kept, rest, hsplit, hkept, hrest⟩
        rw [modifyHead_nothing] at hsplit
        refine ⟨current.reverse :: kept, rest, ?_, ?_, hrest⟩
        · simp [List.splitOn_cons_eq_if_modifyHead, hsplit]
        · rw [linesFrom_newline, List.map_cons, List.map_cons, trim_dropLastMark, hkept]
      · rcases ih (c :: current) with ⟨kept, rest, hsplit, hkept, hrest⟩
        refine ⟨kept, rest, ?_, ?_, hrest⟩
        · rw [← hsplit]
          simp [List.splitOn_cons_eq_if_modifyHead, hc, Function.comp_def]
        · rw [linesFrom_cons_of_ne hc, hkept]

theorem lines_splitOn (text : List Char) :
    ∃ kept rest, text.splitOn '\n' = kept ++ rest ∧ (lines text).map trim = kept.map trim ∧
      ∀ line ∈ rest, line = [] := by
  have hlines := linesFrom_splitOn [] text
  rw [modifyHead_nothing] at hlines
  exact hlines

end Text
end ScopeLisp
