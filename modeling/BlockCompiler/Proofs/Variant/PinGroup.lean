import BlockCompiler.Emit.Pin
import BlockCompiler.Proofs.Text.Literal

set_option autoImplicit false

/-! # Pin groups in their form

A block that writes a run of pins is brought into the form of its group as soon as it is read. The
form has a bit for every pin of the group and no other one, so three walks over the run have to agree:
that of the form, that of the menus in its definition, and that of the digits in the code; and the
fields of the form lead back to the group. -/

namespace BlockCompiler

namespace PinGroup

variable (g : PinGroup) (b : Block)

/-! ## Pins of a group -/

theorem mem_pins {pin : Nat} : pin ∈ g.pins ↔ g.first ≤ pin ∧ pin ≤ g.last := by
  rw [pins, List.mem_range'_1]
  omega

theorem length_pins (h : g.first ≤ g.last) : g.pins.length = g.last - g.first + 1 := by
  rw [pins, List.length_range']
  omega

/-- The pins count up from the first one. -/
theorem getElem?_pins (h : g.first ≤ g.last) {pin : Nat} (hfirst : g.first ≤ pin)
    (hlast : pin ≤ g.last) : g.pins[pin - g.first]? = some pin := by
  rw [pins, List.getElem?_range' (by omega)]
  congr 1
  omega

theorem bitField_injective {pin pin' : Nat} (h : bitField pin = bitField pin') : pin = pin' :=
  Text.append_toString_injective h

/-- A bit field begins with another letter than the three menus do. -/
theorem bitField_ne {menu : String} (h : menu ∈ ["ACTION", "START_PIN", "END_PIN"]) (pin : Nat) :
    bitField pin ≠ menu := by
  have hmenus : ∀ menu ∈ ["ACTION", "START_PIN", "END_PIN"], menu.toList.head? ≠ some 'P' := by
    decide
  rintro rfl
  refine hmenus _ h ?_
  rw [bitField, String.toList_append]
  rfl

/-! ## Fields of the form -/

/-- Of the fields for some pins, each pin has its own. -/
theorem lookup_bits (text : Nat → String) (pins : List Nat) (pin : Nat) :
    (pins.map fun number => (bitField number, text number)).lookup (bitField pin) =
      if pin ∈ pins then some (text pin) else none := by
  induction pins with
  | nil => rfl
  | cons number pins ih =>
    rw [List.map_cons, List.lookup_cons, ih]
    by_cases h : pin = number
    · subst h
      simp
    · have hfield : (bitField pin == bitField number) = false :=
        beq_eq_false_iff_ne.2 fun heq => h (bitField_injective heq)
      simp [hfield, h]

/-- The form keeps the bits of its own pins, and has no other ones. -/
theorem field?_reshape_bitField (pin : Nat) : (g.reshape b).field? (bitField pin) =
    if pin ∈ g.pins then some (if isSet b pin then "1" else "0") else none := by
  have hmenu : ∀ menu ∈ ["ACTION", "START_PIN", "END_PIN"], (bitField pin == menu) = false :=
    fun menu hmenu => beq_eq_false_iff_ne.2 (bitField_ne hmenu pin)
  simp only [List.forall_mem_cons] at hmenu
  obtain ⟨haction, hstart, hend, -⟩ := hmenu
  rw [← lookup_bits fun pin => if isSet b pin then "1" else "0"]
  simp only [Block.field?, Ledger.get?, reshape, List.lookup_cons, haction, hstart, hend]

theorem isSet_reshape (pin : Nat) :
    isSet (g.reshape b) pin = (decide (pin ∈ g.pins) && isSet b pin) := by
  rw [isSet, field?_reshape_bitField]
  by_cases hpin : pin ∈ g.pins <;> cases hset : isSet b pin <;> simp [hpin]

/-- The form has the fields that its definition lists. -/
theorem keys_reshape_perm (board : Board) :
    (g.reshape b).fields.keys.Perm ((g.definition board).fields.map Field.name) := by
  have hkeys : (g.reshape b).fields.keys =
      ["ACTION", "START_PIN", "END_PIN"] ++ g.pins.map bitField := by
    simp [reshape, Ledger.keys, Function.comp_def]
  have hnames : (g.definition board).fields.map Field.name =
      ["ACTION", "START_PIN", "END_PIN"] ++ (g.pins.map bitField).reverse := by
    simp [definition, Field.dropdown, Field.pin, Function.comp_def]
  rw [hkeys, hnames]
  exact (List.reverse_perm _).symm.append_left _

/-- The form of a block that is in the form already is the block itself. -/
theorem reshape_reshape : g.reshape (g.reshape b) = g.reshape b := by
  have hbits : (g.pins.map fun pin => (bitField pin, if isSet (g.reshape b) pin then "1" else "0")) =
      g.pins.map fun pin => (bitField pin, if isSet b pin then "1" else "0") := by
    refine List.map_congr_left fun pin hpin => ?_
    rw [isSet_reshape, decide_eq_true hpin, Bool.true_and]
  rw [reshape, hbits]
  rfl

/-! ## Back to the group -/

/-- The text of a number of eight bits reads as this number. -/
theorem pinNumber?_toString {n : Nat} (h : n ≤ 255) : pinNumber? (toString n) = some n := by
  have hnumeral : ∀ c ∈ Nat.toDigits 10 n, Text.isNumeral c = true := by
    intro c hc
    rw [Text.isNumeral, Text.isDigit_of_mem_toDigits hc, Bool.true_or]
  rw [pinNumber?, Nat.toString_eq_repr, Nat.toList_repr, Text.trim_of_isNumeral hnumeral,
    Text.unsigned?_toDigits h]

theorem le_of_pinNumber? {text : String} {n : Nat} (h : pinNumber? text = some n) : n ≤ 255 :=
  of_decide_eq_true (Option.filter_eq_some_iff.1 h).2

/-- A field that is read as a pin number, or else a number of eight bits. -/
theorem getD_pinNumber?_le {name : String} {otherwise : Nat} (h : otherwise ≤ 255) :
    ((b.field? name).bind pinNumber?).getD otherwise ≤ 255 := by
  cases hread : (b.field? name).bind pinNumber? with
  | none => exact h
  | some n =>
    obtain ⟨text, -, hn⟩ := Option.bind_eq_some_iff.1 hread
    exact le_of_pinNumber? hn

theorem first_le_last_ofBlock : (ofBlock b).first ≤ (ofBlock b).last :=
  Nat.le_trans (Nat.min_le_left _ _) (Nat.le_max_left _ _)

theorem last_ofBlock_le : (ofBlock b).last ≤ 255 :=
  have hone : ((b.field? "START_PIN").bind pinNumber?).getD 0 ≤ 255 :=
    getD_pinNumber?_le b (by decide)
  Nat.max_le.2 ⟨hone, getD_pinNumber?_le b hone⟩

/-- The fields of the form describe its group. -/
theorem ofBlock_reshape (h : g.first ≤ g.last) (hlast : g.last ≤ 255) :
    ofBlock (g.reshape b) = g := by
  have haction : (g.reshape b).field? "ACTION" = some g.action.field := rfl
  have hstart : (g.reshape b).field? "START_PIN" = some (toString g.first) := rfl
  have hend : (g.reshape b).field? "END_PIN" = some (toString g.last) := rfl
  rw [ofBlock, haction, hstart, hend]
  simp only [Option.bind_some, pinNumber?_toString (Nat.le_trans h hlast), pinNumber?_toString hlast,
    Option.getD_some, Nat.min_eq_left h, Nat.max_eq_right h]
  cases g with
  | mk action first last => cases action <;> rfl

/-! ## Code -/

/-- Binary digits tell the bits that a block has set for the pins of a group: one digit for every pin,
and that of the first pin last. -/
structure Spells (digits : List Char) : Prop where
  length : digits.length = g.last - g.first + 1
  digit : ∀ pin, g.first ≤ pin → pin ≤ g.last →
    digits.reverse[pin - g.first]? = some (if b.field? ("P" ++ toString pin) = some "1" then '1' else '0')

theorem spells_pinBits (h : g.first ≤ g.last) : g.Spells b (Emit.pinBits b g).toList where
  length := by rw [Emit.pinBits, String.toList_ofList, List.length_map, List.length_reverse,
    length_pins g h]
  digit pin hfirst hlast := by
    rw [Emit.pinBits, String.toList_ofList, ← List.map_reverse, List.reverse_reverse,
      List.getElem?_map, getElem?_pins g h hfirst hlast, Option.map_some]
    simp only [isSet, bitField, beq_iff_eq]

/-- The digits for a group depend on the bits of the group alone. -/
theorem pinBits_reshape : Emit.pinBits (g.reshape b) g = Emit.pinBits b g := by
  refine congrArg String.ofList (List.map_congr_left fun pin hpin => ?_)
  rw [isSet_reshape, decide_eq_true (List.mem_reverse.1 hpin), Bool.true_and]

/-- The code that writes the pins of a group, of which the digits are given. -/
def code (digits : List Char) : String :=
  Emit.pinsCall g.action ++ "(" ++ toString g.last ++ ", " ++ toString g.first ++ ", 0b" ++
    String.ofList digits ++ ");\n"

theorem setPins_eq :
    Emit.setPins b = pure ((ofBlock b).code (Emit.pinBits b (ofBlock b)).toList) := by
  rw [Emit.setPins, code, String.ofList_toList]

/-- What a block is in the form of its group: the form has the same group and the fields that its
definition lists, bringing it into the form again changes nothing, and its code is that of the block,
whose digits tell the bits of the group. Of two forms that a block is brought into in turn, the second
one has the bits of its own pins: those that are in both groups are kept, and the others are not set. -/
theorem reshape_keepsMeaning :
    ((ofBlock b).first ≤ (ofBlock b).last ∧
      ofBlock ((ofBlock b).reshape b) = ofBlock b ∧
      (∀ board, ((ofBlock b).reshape b).fields.keys.Perm
        (((ofBlock b).definition board).fields.map Field.name)) ∧
      (ofBlock b).reshape ((ofBlock b).reshape b) = (ofBlock b).reshape b ∧
      Emit.setPins ((ofBlock b).reshape b) = Emit.setPins b ∧
      ∃ digits, Emit.setPins b = pure ((ofBlock b).code digits) ∧ (ofBlock b).Spells b digits) ∧
    ∀ v w : PinGroup, ∀ pin, (w.reshape (v.reshape b)).field? ("P" ++ toString pin) =
      if w.first ≤ pin ∧ pin ≤ w.last then
        some (if (v.first ≤ pin ∧ pin ≤ v.last) ∧ b.field? ("P" ++ toString pin) = some "1" then "1"
          else "0")
      else none := by
  have hrange := first_le_last_ofBlock b
  have hgroup := ofBlock_reshape (ofBlock b) b hrange (last_ofBlock_le b)
  refine ⟨⟨hrange, hgroup, keys_reshape_perm _ b, reshape_reshape _ b, ?_, ?_⟩, fun v w pin => ?_⟩
  · rw [setPins_eq, setPins_eq, hgroup, pinBits_reshape]
  · exact ⟨_, setPins_eq b, spells_pinBits _ b hrange⟩
  · have hbit := field?_reshape_bitField w (v.reshape b) pin
    rw [isSet_reshape] at hbit
    simpa [mem_pins, isSet, bitField] using hbit

end PinGroup

end BlockCompiler
