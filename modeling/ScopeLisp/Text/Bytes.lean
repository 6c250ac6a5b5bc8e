/-!
# Bytes

The length of a text is counted in the bytes of its UTF-8 form, wherever a
position or a limit outside the program counts it so.
-/

namespace ScopeLisp
namespace Text

def byteLength (text : List Char) : Nat :=
  text.foldl (fun length c => length + c.utf8Size) 0

theorem foldl_utf8Size (text : List Char) (start : Nat) :
    text.foldl (fun length c => length + c.utf8Size) start = start + byteLength text := by
  induction text generalizing start with
  | nil =>
      rfl
  | cons c text ih =>
      unfold byteLength
      rw [List.foldl_cons, List.foldl_cons, ih, ih]
      omega

@[simp] theorem byteLength_nil : byteLength [] = 0 := rfl

@[simp] theorem byteLength_cons (c : Char) (text : List Char) :
    byteLength (c :: text) = c.utf8Size + byteLength text := by
  rw [byteLength, List.foldl_cons, foldl_utf8Size]
  omega

theorem byteLength_append (first second : List Char) :
    byteLength (first ++ second) = byteLength first + byteLength second := by
  rw [byteLength, List.foldl_append, foldl_utf8Size]
  rfl

end Text
end ScopeLisp
