import Strongbox.Proofs.Bytes
import Strongbox.Random.Drbg

/-!
# Where a label ends

New material is hashed under a label, so that the same material counts
for something else under another one. What is hashed is the label, the
length of the material and the material; the label has no length in
front of it. `Drbg.reseedInput_eq_iff` says which pairs of a label and a
material are hashed as one string for that reason. One label has to go
on where the other ends, and the eight bytes from there on, part of the
longer label or of the length behind it, have to read as the length of
all that follows them (`Drbg.RunsInto`).

Labels of which neither begins the other are kept apart by this
(`Drbg.reseedInput_inj`), and so are labels of text, even where one goes
on after the other, since no length within reach is written in printable
characters (`Drbg.reseedInput_inj_of_text`). Arbitrary labels are not:
`Drbg.reseedInput_nested` goes on after any label that there is, and
`Drbg.reseedInput_not_injective` is the shortest instance.

## What can go wrong

The length of the material is eight bytes, and they stand behind the
label. A reader of the string who does not know where the label ends can
take the first bytes of the length for the end of a longer label, and
what follows for another length. That the second reading fits is one
equation about eight bytes, and the rest of the string is material that
may be anything. So for any label there are others that run into it, and
the only question is whether someone uses them.

The labels of the library are texts of which none begins another, and
nothing can go wrong with them. For labels that a client chooses, one of
the two conditions has to be seen to.
-/

namespace Strongbox.Random.Drbg

open Bytes (littleEndian ofLittleEndian)

variable {label label' rest material material' : Bytes}

/-! ## Two readings of one string -/

/-- **One string cut after eight bytes**, in two ways of putting it
together. It is the comparison of two lists with a common place to cut. -/
theorem append_eq_append_iff_of_eight {eight bytes : Bytes}
    (height : eight.length = 8) (hbytes : 8 ≤ bytes.length) :
    eight ++ material = bytes ++ material'
      ↔ bytes.take 8 = eight ∧ bytes.drop 8 ++ material' = material := by
  have hcut : bytes ++ material'
    = bytes.take 8 ++ (bytes.drop 8 ++ material') := by
    rw [← List.append_assoc, List.take_append_drop]
  rw [hcut]
  constructor
  · intro h
    have hlength : (bytes.take 8).length = eight.length := by
      rw [height, List.length_take_of_le hbytes]
    exact List.append_inj h.symm hlength
  · rintro ⟨htake, hdrop⟩
    rw [htake, hdrop]

/-- **A label that goes on** where another one ends is hashed as that
one, when what stands there reads as the length of the other material
and as its beginning. The common label is taken away, and the rest is
cut after eight bytes. -/
theorem reseedInput_eq_append_iff :
    reseedInput label material = reseedInput (label ++ rest) material'
      ↔ (rest ++ littleEndian 8 material'.length).take 8
        = littleEndian 8 material.length
        ∧ (rest ++ littleEndian 8 material'.length).drop 8 ++ material'
          = material := by
  have hroom : 8 ≤ (rest ++ littleEndian 8 material'.length).length := by
    rw [List.length_append, Bytes.length_littleEndian]
    exact Nat.le_add_left 8 rest.length
  have hbehind : reseedInput (label ++ rest) material'
      = label ++ (rest ++ littleEndian 8 material'.length ++ material') := by
    unfold reseedInput
    rw [List.append_assoc label, List.append_assoc label]
  rw [hbehind, reseedInput, List.append_assoc, List.append_right_inj]
  exact append_eq_append_iff_of_eight (Bytes.length_littleEndian 8 _) hroom

/-- Under one label the material is told by the string. The label is
taken away, and the length in front of the material says nothing that
the material does not say. -/
theorem material_eq_of_reseedInput_eq
    (h : reseedInput label material = reseedInput label material') :
    material = material' := by
  unfold reseedInput at h
  rw [List.append_assoc, List.append_assoc, List.append_right_inj] at h
  exact List.append_inj_right h
    (by rw [Bytes.length_littleEndian, Bytes.length_littleEndian])

/-! ## Which pairs are hashed as one -/

/-- **One pair runs into another**: the label of the other goes on
behind that of the one, with what reads there as the length of the
material and its beginning. The label of the other one must really be
longer; a pair does not run into itself. -/
def RunsInto (label material label' material' : Bytes) : Prop :=
  ∃ rest, rest ≠ [] ∧ label' = label ++ rest
    ∧ (rest ++ littleEndian 8 material'.length).take 8
      = littleEndian 8 material.length
    ∧ (rest ++ littleEndian 8 material'.length).drop 8 ++ material' = material

/-- A pair that goes on after the label of another one is the same, or
is run into. What stands behind the shorter label is empty, or it is the
rest of a longer one. -/
theorem eq_or_runsInto (hbegins : label <+: label')
    (h : reseedInput label material = reseedInput label' material') :
    (label = label' ∧ material = material')
      ∨ RunsInto label material label' material' := by
  obtain ⟨rest, rfl⟩ := hbegins
  by_cases hrest : rest = []
  · subst hrest
    rw [List.append_nil] at h ⊢
    exact .inl ⟨rfl, material_eq_of_reseedInput_eq h⟩
  · exact .inr ⟨rest, hrest, rfl, reseedInput_eq_append_iff.mp h⟩

/-- **A pair that runs into another is hashed as it.** The label of the
one goes on into what is the length and the material of the other. -/
theorem RunsInto.reseedInput_eq (h : RunsInto label material label' material') :
    reseedInput label material = reseedInput label' material' := by
  obtain ⟨rest, -, rfl, hreads⟩ := h
  exact reseedInput_eq_append_iff.mpr hreads

/-- What is hashed begins with the label. Nothing stands before it that
would say where it ends. -/
theorem label_prefix_reseedInput (label material : Bytes) :
    label <+: reseedInput label material :=
  ⟨_, (List.append_assoc ..).symm⟩

/-- Where two pairs are hashed as one string, one of the labels begins
the other. Of two beginnings of one string, the shorter one begins the
longer one. -/
theorem labels_prefix_of_reseedInput_eq
    (h : reseedInput label material = reseedInput label' material') :
    label <+: label' ∨ label' <+: label :=
  List.prefix_or_prefix_of_prefix (label_prefix_reseedInput label material)
    (h ▸ label_prefix_reseedInput label' material')

/-- Two pairs that are hashed as one string are the same, or one runs
into the other. Which label is the longer one decides between the last
two cases. -/
theorem eq_or_runsInto_or_runsInto
    (h : reseedInput label material = reseedInput label' material') :
    (label = label' ∧ material = material')
      ∨ RunsInto label material label' material'
      ∨ RunsInto label' material' label material := by
  obtain hbegins | hbegins := labels_prefix_of_reseedInput_eq h
  · obtain hsame | hruns := eq_or_runsInto hbegins h
    · exact .inl hsame
    · exact .inr (.inl hruns)
  · obtain ⟨rfl, rfl⟩ | hruns := eq_or_runsInto hbegins h.symm
    · exact .inl ⟨rfl, rfl⟩
    · exact .inr (.inr hruns)

/-- **Which pairs are hashed as one string**: those that are the same,
and those of which one runs into the other. This is a complete account:
there is no other way for two pairs to meet. -/
theorem reseedInput_eq_iff :
    reseedInput label material = reseedInput label' material'
      ↔ (label = label' ∧ material = material')
        ∨ RunsInto label material label' material'
        ∨ RunsInto label' material' label material := by
  constructor
  · exact eq_or_runsInto_or_runsInto
  · rintro (⟨rfl, rfl⟩ | hruns | hruns)
    · rfl
    · exact hruns.reseedInput_eq
    · exact hruns.reseedInput_eq.symm

/-- **A label that goes on after any other**, with the length that is
read there and whatever is wanted behind it. The longer label holds the
length that the shorter one expects, and its own end is material of the
other. -/
theorem reseedInput_nested (label inner material : Bytes) :
    reseedInput label (inner ++ littleEndian 8 material.length ++ material)
      = reseedInput (label ++ littleEndian 8
          (inner ++ littleEndian 8 material.length ++ material).length ++ inner)
            material := by
  unfold reseedInput
  simp only [List.append_assoc]

/-- **Labels do not always separate.** One byte of material under the
empty label is hashed as no material under a label of one byte. -/
theorem reseedInput_not_injective :
    (([], [0]) : Bytes × Bytes) ≠ ([1], [])
      ∧ reseedInput [] [0] = reseedInput [1] [] := by
  decide

/-! ## Labels that are kept apart -/

/-- **Labels neither of which begins the other** are kept apart, with
every material. Neither can run into the other, because its label would
have to begin the other one. -/
theorem reseedInput_inj (hlabel : label <+: label' → label = label')
    (hlabel' : label' <+: label → label = label') :
    reseedInput label material = reseedInput label' material'
      ↔ label = label' ∧ material = material' := by
  constructor
  · intro h
    have hsame : label = label' :=
      (labels_prefix_of_reseedInput_eq h).elim hlabel hlabel'
    subst hsame
    exact ⟨rfl, material_eq_of_reseedInput_eq h⟩
  · rintro ⟨rfl, rfl⟩
    rfl

/-- **Whether a label is text**: it has no control characters. The bytes
of a short length are no text, since some of them are zero. -/
def IsText (label : Bytes) : Prop := ∀ byte ∈ label, 32 ≤ byte.toNat

/-- **A rest shorter than a length** is the low bytes of it, and the
other length its high ones. Both parts are read off the same eight
bytes. -/
theorem low_and_high_of_take {n n' : Nat} (hfew : rest.length ≤ 8)
    (htake : (rest ++ littleEndian 8 n').take 8 = littleEndian 8 n) :
    rest = littleEndian rest.length n
      ∧ n' % 256 ^ (8 - rest.length)
        = n / 256 ^ rest.length % 256 ^ (8 - rest.length) := by
  obtain ⟨w, hw⟩ := Nat.exists_eq_add_of_le hfew
  have hwidth : 8 - rest.length = w := by omega
  have hlow : littleEndian 8 n
      = littleEndian rest.length n
        ++ littleEndian w (n / 256 ^ rest.length) := by
    rw [hw, Bytes.littleEndian_cut]
  have hhigh : (rest ++ littleEndian 8 n').take 8
    = rest ++ littleEndian w n' := by
    have hcut : littleEndian 8 n'
        = littleEndian w n' ++ littleEndian rest.length (n' / 256 ^ w) := by
      rw [hw, Nat.add_comm, Bytes.littleEndian_cut]
    have hlength : (rest ++ littleEndian w n').length = 8 := by
      rw [List.length_append, Bytes.length_littleEndian, ← hw]
    rw [hcut, ← List.append_assoc, List.take_left' hlength]
  rw [hlow, hhigh] at htake
  obtain ⟨hread, hlengths⟩ :=
    List.append_inj htake (Bytes.length_littleEndian _ _).symm
  have hvalues := congrArg ofLittleEndian hlengths
  rw [Bytes.ofLittleEndian_littleEndian, Bytes.ofLittleEndian_littleEndian]
    at hvalues
  exact ⟨hread, hwidth ▸ hvalues⟩

/-- **No short length is text.** What would be read has the rest of the
label in its low bytes and the other length above them, which is far
more than the two come to. -/
theorem not_runsInto_of_text (htext : IsText label')
    (hshort : label'.length + material'.length < 2 ^ 32) :
    ¬RunsInto label material label' material' := by
  rintro ⟨rest, hrest, rfl, htake, hdrop⟩
  have hsum : material.length = rest.length + material'.length := by
    rw [← hdrop, List.length_append, List.length_drop, List.length_append,
      Bytes.length_littleEndian, Nat.add_sub_cancel]
  have hprintable : ∀ byte ∈ rest, 32 ≤ byte.toNat :=
    fun byte hmem => htext byte (List.mem_append_right label hmem)
  rw [List.length_append] at hshort
  have hsmall : material.length < 2 ^ 32 := by omega
  generalize material.length = n at htake hsum hsmall
  generalize material'.length = n' at htake hsum hshort
  obtain hlong | hfew := Nat.lt_or_ge 4 rest.length
  · -- The rest reaches into the fifth byte of the length.
    have hhigh : n / 256 ^ 4 = 0 := Nat.div_eq_of_lt hsmall
    have hfifth := congrArg (·[4]?) htake
    rw [Bytes.getElem?_littleEndian (by decide), hhigh,
      List.getElem?_take_of_lt (by decide), List.getElem?_append_left hlong]
        at hfifth
    exact absurd (hprintable 0 (List.mem_of_getElem? hfifth)) (by decide)
  · obtain ⟨hread, hother⟩ := low_and_high_of_take (by omega) htake
    have hquotient : n / 256 ^ rest.length ≤ n := Nat.div_le_self ..
    have hwidth : 256 ^ 4 ≤ 256 ^ (8 - rest.length) :=
      Nat.pow_le_pow_right (by decide) (by omega)
    rw [Nat.mod_eq_of_lt (by omega), Nat.mod_eq_of_lt (by omega)] at hother
    obtain ⟨byte, tail, rfl⟩ := List.exists_cons_of_ne_nil hrest
    have hlowest : 32 ≤ n % 256 := by
      have hbyte : byte = UInt8.ofNat n := (List.cons.inj hread).1
      have hleast := hprintable byte (List.mem_cons_self ..)
      rwa [hbyte, UInt8.toNat_ofNat'] at hleast
    have hshifted : n / 256 ^ (byte :: tail).length ≤ n / 256 :=
      Nat.div_le_div_left (Nat.le_self_pow (Nat.succ_ne_zero _) 256) (by decide)
    omega

/-- **Labels of text** are kept apart, with material of less than four
gigabytes: neither pair can run into the other one. -/
theorem reseedInput_inj_of_text (htext : IsText label) (htext' : IsText label')
    (hshort : label.length + material.length < 2 ^ 32)
    (hshort' : label'.length + material'.length < 2 ^ 32) :
    reseedInput label material = reseedInput label' material'
      ↔ label = label' ∧ material = material' := by
  constructor
  · intro h
    obtain hsame | hruns | hruns := eq_or_runsInto_or_runsInto h
    · exact hsame
    · exact absurd hruns (not_runsInto_of_text htext' hshort')
    · exact absurd hruns (not_runsInto_of_text htext hshort)
  · rintro ⟨rfl, rfl⟩
    rfl

end Strongbox.Random.Drbg
