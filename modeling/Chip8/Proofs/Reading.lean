import Chip8.PostMortem

/-!
# Reading the post-mortem text

* `Hex.isAlphanum_of_mem_field`: a numeral holds letters and digits only.
* `PostMortem.words`: the words in each line of the text; `chars_eq_intercalate`: the text is these words
  with blanks and line ends between them.
* `PostMortem.Unbroken`: no blank and no line end is inside a word; `unbroken_words`.
* `PostMortem.read`: what the words of a text tell of.
* `read_render`: reading gives back what was written, whatever the width of its numerals and the number of
  its open calls; `render_injective`.
* **`dump_faithful`**: two machines have the same post-mortem text just if it tells of the same things, and
  these can be read from it.
-/

namespace Chip8

/-! ## Numerals as words -/

namespace Hex

theorem isAlphanum_digit {d : Nat} (h : d < 16) : (digit d).isAlphanum = true := by
  have : ∀ d : Fin 16, (digit d).isAlphanum = true := by decide
  exact this ⟨d, h⟩

theorem isAlphanum_of_mem_digits {n : Nat} {c : Char} (h : c ∈ digits n) : c.isAlphanum = true := by
  fun_induction digits n with
  | case1 n lt =>
    obtain rfl := List.mem_singleton.1 h
    exact isAlphanum_digit lt
  | case2 n _ ih =>
    rcases List.mem_append.1 h with h | h
    · exact ih h
    · obtain rfl := List.mem_singleton.1 h
      exact isAlphanum_digit (Nat.mod_lt _ (by decide))

theorem isAlphanum_of_mem_field {width n : Nat} {c : Char} (h : c ∈ field width n) :
    c.isAlphanum = true := by
  rcases List.mem_append.1 h with h | h
  · obtain rfl := List.eq_of_mem_replicate h
    rfl
  · exact isAlphanum_of_mem_digits h

end Hex

namespace PostMortem

/-! ## Lines and words -/

/-- The words of a list of numbers between brackets. -/
def bracketed (width : Nat) (ns : List Nat) : List (List Char) :=
  ['['] :: (ns.map (Hex.field width) ++ [[']']])

/-- The words in each line of the text. Two blanks in a row have an empty word between them. -/
def words (p : PostMortem) : List (List (List Char)) :=
  ["V:".toList :: bracketed 2 (p.v.toList.map UInt8.toNat),
    "stack:".toList :: bracketed 3 (p.live.map UInt16.toNat),
    ["I:".toList, Hex.field 3 p.i.toNat, [], "PC:".toList, Hex.field 3 p.pc.toNat, [],
      "SP:".toList, Nat.toDigits 10 p.sp]]

theorem fields_append (width : Nat) (ns : List Nat) (last : List Char) :
    fields width ns ++ last = [' '].intercalate (ns.map (Hex.field width) ++ [last]) := by
  induction ns with
  | nil => exact List.intercalate_singleton.symm
  | cons n ns ih =>
    have rest : ns.map (Hex.field width) ++ [last] ≠ [] := List.concat_ne_nil _ _
    rw [List.map_cons, List.cons_append, List.intercalate_cons_of_ne_nil rest, ← ih]
    simp [fields]

theorem intercalate_bracketed (word : List Char) (width : Nat) (ns : List Nat) :
    [' '].intercalate (word :: bracketed width ns) =
      word ++ [' ', '[', ' '] ++ fields width ns ++ [']'] := by
  have inside : ns.map (Hex.field width) ++ [[']']] ≠ [] := List.concat_ne_nil _ _
  rw [bracketed, List.intercalate_cons_cons, List.intercalate_cons_of_ne_nil inside, ← fields_append]
  simp only [List.append_assoc, List.cons_append, List.nil_append]

theorem chars_eq_intercalate (p : PostMortem) :
    p.chars = ['\n'].intercalate (p.words.map ([' '].intercalate ·)) := by
  -- an equation of `chars` for `rw` or `simp` would evaluate its texts character by character
  unfold chars
  simp only [words, List.map_cons, List.map_nil, intercalate_bracketed, List.intercalate_cons_cons,
    List.intercalate_singleton]
  simp only [String.reduceToList, List.append_assoc, List.cons_append, List.nil_append]

-- addresses past the end of memory have four digits
example : (PostMortem.mk Registers.zero [0x20A, 0xFFFF] 5 0x1234 14).render =
    "V: [ 00 00 00 00 00 00 00 00 00 00 00 00 00 00 00 00 ]\n" ++
      "stack: [ 20A FFFF ]\nI: 005  PC: 1234  SP: 14" := by
  decide +kernel

/-! ## Words without blanks -/

/-- No blank and no line end is in the word. -/
def Unbroken (word : List Char) : Prop := ' ' ∉ word ∧ '\n' ∉ word

instance (word : List Char) : Decidable (Unbroken word) :=
  inferInstanceAs (Decidable (' ' ∉ word ∧ '\n' ∉ word))

theorem unbroken_of_isAlphanum {word : List Char} (h : ∀ c ∈ word, c.isAlphanum = true) :
    Unbroken word :=
  ⟨fun mem => absurd (h _ mem) (by decide), fun mem => absurd (h _ mem) (by decide)⟩

theorem unbroken_field (width n : Nat) : Unbroken (Hex.field width n) :=
  unbroken_of_isAlphanum fun _ mem => Hex.isAlphanum_of_mem_field mem

theorem unbroken_toDigits (n : Nat) : Unbroken (Nat.toDigits 10 n) := by
  apply unbroken_of_isAlphanum
  intro c mem
  have digit : c.isDigit = true := Nat.isDigit_of_mem_toDigits (by decide) (by decide) mem
  rw [Char.isAlphanum, digit, Bool.or_true]

theorem unbroken_bracketed (width : Nat) (ns : List Nat) : ∀ w ∈ bracketed width ns, Unbroken w := by
  have inside : ∀ w ∈ ns.map (Hex.field width), Unbroken w := by
    intro w mem
    obtain ⟨n, -, rfl⟩ := List.mem_map.1 mem
    exact unbroken_field width n
  intro w mem
  rcases List.mem_cons.1 mem with rfl | mem
  · decide
  · rcases List.mem_append.1 mem with mem | mem
    · exact inside w mem
    · obtain rfl := List.mem_singleton.1 mem
      decide

theorem unbroken_words (p : PostMortem) : ∀ line ∈ p.words, ∀ w ∈ line, Unbroken w := by
  simp only [words, List.forall_mem_cons]
  refine ⟨⟨by decide, unbroken_bracketed _ _⟩, ⟨by decide, unbroken_bracketed _ _⟩, ?_, nofun⟩
  exact ⟨by decide, unbroken_field _ _, by decide, by decide, unbroken_field _ _, by decide, by decide,
    unbroken_toDigits _, nofun⟩

theorem not_mem_intercalate {c : Char} {sep : List Char} {line : List (List Char)} (hsep : c ∉ sep)
    (h : ∀ w ∈ line, c ∉ w) : c ∉ sep.intercalate line := by
  induction line with
  | nil => exact List.not_mem_nil
  | cons w line ih =>
    rw [List.forall_mem_cons] at h
    cases line with
    | nil =>
      rw [List.intercalate_singleton]
      exact h.1
    | cons w' line =>
      rw [List.intercalate_cons_cons, List.mem_append, List.mem_append]
      rintro ((mem | mem) | mem)
      · exact h.1 mem
      · exact hsep mem
      · exact ih h.2 mem

/-! ## Reading -/

/-- The words in each line of a text. -/
def split (text : String) : List (List (List Char)) :=
  (text.toList.splitOn '\n').map (·.splitOn ' ')

/-- The numbers of a list between brackets. -/
def unbracket (line : List (List Char)) : List Nat := line.tail.dropLast.map Hex.toNat

/-- What some words tell of. -/
def ofWords : List (List (List Char)) → Option PostMortem
  | [_ :: registers, _ :: calls, [_, i, _, _, pc, _, _, sp]] =>
    some
      { v := Registers.zero.fill ((unbracket registers).map UInt8.ofNat)
        live := (unbracket calls).map UInt16.ofNat
        i := UInt16.ofNat (Hex.toNat i)
        pc := UInt16.ofNat (Hex.toNat pc)
        sp := Nat.ofDigitChars 10 sp 0 }
  | _ => none

/-- What a text tells of. -/
def read (text : String) : Option PostMortem := ofWords (split text)

/-- The text falls into its words again. -/
theorem split_render (p : PostMortem) : split p.render = p.words := by
  have whole : ∀ line ∈ p.words.map ([' '].intercalate ·), '\n' ∉ line := by
    intro line mem
    obtain ⟨ws, hws, rfl⟩ := List.mem_map.1 mem
    exact not_mem_intercalate (by decide) fun w hw => (p.unbroken_words ws hws w hw).2
  have apart : ∀ ws ∈ p.words, ([' '].intercalate ws).splitOn ' ' = ws := by
    intro ws hws
    have filled : ws ≠ [] := by
      rintro rfl
      simp [words] at hws
    exact List.splitOn_intercalate _ (fun w hw => (p.unbroken_words ws hws w hw).1) filled
  rw [split, render, String.toList_ofList, chars_eq_intercalate,
    List.splitOn_intercalate _ whole (List.cons_ne_nil _ _), List.map_map]
  exact (List.map_congr_left apart).trans (List.map_id _)

theorem unbracket_bracketed (width : Nat) (ns : List Nat) : unbracket (bracketed width ns) = ns := by
  rw [unbracket, bracketed, List.tail_cons, List.dropLast_concat, List.map_map]
  exact (List.map_congr_left fun n _ => Hex.toNat_field width n).trans (List.map_id _)

/-- The words tell of what was written. -/
theorem ofWords_words (p : PostMortem) : ofWords p.words = some p := by
  have bytes : (p.v.toList.map UInt8.toNat).map UInt8.ofNat = p.v.toList := by
    rw [List.map_map]
    exact (List.map_congr_left fun b _ => UInt8.ofNat_toNat).trans (List.map_id _)
  have addresses : (p.live.map UInt16.toNat).map UInt16.ofNat = p.live := by
    rw [List.map_map]
    exact (List.map_congr_left fun a _ => UInt16.ofNat_toNat).trans (List.map_id _)
  simp only [words, ofWords, unbracket_bracketed, Hex.toNat_field, Nat.ofDigitChars_ten_toDigits,
    bytes, addresses, Registers.fill_toList, UInt16.ofNat_toNat]

/-- **Reading what was written.** -/
theorem read_render (p : PostMortem) : read p.render = some p := by
  rw [read, split_render, ofWords_words]

theorem render_injective {p q : PostMortem} (h : p.render = q.render) : p = q := by
  have same : some p = some q := by rw [← read_render p, h, read_render q]
  exact Option.some.inj same

end PostMortem

/-- **The post-mortem text.** Two machines have the same text just if they agree on the registers, on the
open calls and their number, on the address register and on the program counter. These can be read from
the text. -/
theorem Machine.dump_faithful {σ τ : Type} (m : Machine σ) (n : Machine τ) :
    (m.dump = n.dump ↔ m.v = n.v ∧ m.stack.sp = n.stack.sp ∧ m.stack.live = n.stack.live ∧
      m.i = n.i ∧ m.pc = n.pc) ∧
    PostMortem.read m.dump = some ⟨m.v, m.stack.live, m.i, m.pc, m.stack.sp⟩ := by
  refine ⟨⟨fun same => ?_, ?_⟩, m.postMortem.read_render⟩
  · have told := PostMortem.render_injective same
    exact ⟨congrArg (·.v) told, congrArg (·.sp) told, congrArg (·.live) told, congrArg (·.i) told,
      congrArg (·.pc) told⟩
  · rintro ⟨v, sp, live, i, pc⟩
    exact congrArg PostMortem.render (PostMortem.ext v live i pc sp)

end Chip8
