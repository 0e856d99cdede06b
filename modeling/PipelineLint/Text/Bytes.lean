set_option autoImplicit false

/-! # Sizes in bytes

Offsets into a text count the bytes of its UTF-8 form. A byte count cuts a text only where a
character ends. -/

namespace PipelineLint.Text

/-- The number of bytes a text takes. -/
def byteLength (text : List Char) : Nat :=
  text.foldr (fun c size => c.utf8Size + size) 0

@[simp] theorem byteLength_nil : byteLength [] = 0 := rfl

@[simp] theorem byteLength_cons (c : Char) (text : List Char) :
    byteLength (c :: text) = c.utf8Size + byteLength text := rfl

@[simp] theorem byteLength_append (text more : List Char) :
    byteLength (text ++ more) = byteLength text + byteLength more := by
  induction text with
  | nil => simp
  | cons c text ih => simp [ih, Nat.add_assoc]

/-- What is left of a text after its first `n` bytes; nothing if they end inside a character or
    there are not that many. -/
def dropBytes? : List Char → Nat → Option (List Char)
  | text, 0 => some text
  | [], _ + 1 => none
  | c :: rest, n + 1 => if c.utf8Size ≤ n + 1 then dropBytes? rest (n + 1 - c.utf8Size) else none

@[simp] theorem dropBytes?_zero (text : List Char) : dropBytes? text 0 = some text := by
  cases text <;> rfl

/-- Without the bytes of its first part, a text is its second part. -/
theorem dropBytes?_append (text more : List Char) :
    dropBytes? (text ++ more) (byteLength text) = some more := by
  induction text with
  | nil => simp
  | cons c rest ih =>
    obtain ⟨n, hn⟩ := Nat.exists_eq_add_one.2 (Char.utf8Size_pos c)
    have hlen : byteLength (c :: rest) = (n + byteLength rest) + 1 := by
      rw [byteLength_cons, hn]
      omega
    have hle : c.utf8Size ≤ n + byteLength rest + 1 := by omega
    have hsub : n + byteLength rest + 1 - c.utf8Size = byteLength rest := by omega
    rw [hlen, List.cons_append, dropBytes?, if_pos hle, hsub, ih]

/-- The part of a text between two byte offsets; nothing if one of them lies inside a character or
    past the end, or if they are in the wrong order. -/
def sliceBytes? (text : List Char) (start stop : Nat) : Option (List Char) :=
  if start ≤ stop then do
    let rest ← dropBytes? text start
    let more ← dropBytes? text stop
    return rest.take (rest.length - more.length)
  else none

end PipelineLint.Text
