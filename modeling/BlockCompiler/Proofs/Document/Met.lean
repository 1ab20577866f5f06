import BlockCompiler.Document

set_option autoImplicit false

/-! # What is met in a document

A document is read from front to back. Of the elements that stand in it, those are met that are
blocks of the root or plugged into a socket of a block that is met, and those that have to carry a
name: fields, and sockets that hold values or statements. A shadow is hidden by a block that is
plugged into the same socket, and so is all that stands inside of it. Reading fails at the first
element met that lacks its type or its name. -/

namespace BlockCompiler

namespace Markup

/-- The elements among the nodes. -/
def elements (nodes : List Node) : List Element :=
  nodes.filterMap fun
    | .element name attributes children => some ⟨name, attributes, children⟩
    | .text _ => none

/-- The elements among the nodes that have to carry a name. -/
def partsOf (nodes : List Node) : List Element :=
  (elements nodes).filter fun part => ["field", "value", "statement"].contains part.name

/-- The parts of a block that have to carry a name. -/
def Element.parts (e : Element) : List Element := partsOf e.children

/-- What a reader of a document meets. -/
inductive Met where
  | block (element : Element)
  | part (element : Element)

/-- The block that is met. -/
def Met.block? : Met → Option Element
  | .block element => some element
  | .part _ => none

mutual

/-- What is met among the nodes inside of a block. -/
def metIn : List Node → List Met
  | [] => []
  | .text _ :: rest => metIn rest
  | .element name attributes children :: rest =>
    (if ["field", "value", "statement"].contains name then [.part ⟨name, attributes, children⟩]
      else []) ++
    (if ["value", "statement", "next"].contains name then
      ((metFirst "block" children).or (metFirst "shadow" children)).getD []
      else []) ++
    metIn rest

/-- What is met at the first element of the given name, as a block. -/
def metFirst (wanted : String) : List Node → Option (List Met)
  | [] => none
  | .text _ :: rest => metFirst wanted rest
  | .element name attributes children :: rest =>
    if name = wanted then some (.block ⟨name, attributes, children⟩ :: metIn children)
    else metFirst wanted rest

end

/-- What is met among the nodes of a root. -/
def metOn (nodes : List Node) : List Met :=
  ((elements nodes).filter (·.name = "block")).flatMap fun e => .block e :: metIn e.children

/-- What is met in a document, in the order in which the document opens it. -/
def Element.met (root : Element) : List Met := metOn root.children

/-- The blocks that are met in a document. -/
def Element.blocks (root : Element) : List Element := root.met.filterMap Met.block?

/-- A block says what type it is of. -/
def Element.HasType (e : Element) : Prop :=
  ∃ type, e.attributes.get? "type" = some type ∧ Text.allBlank type.toList = false

/-- An element carries a name. -/
def Element.HasName (e : Element) : Prop := ∃ name, e.attributes.get? "name" = some name

/-- What is wrong with an element that is met. -/
def Met.fault? : Met → Option LoadError
  | .block e =>
    if (e.attributes.get? "type").all fun type => Text.allBlank type.toList then some .missingType
    else none
  | .part e => if (e.attributes.get? "name").isNone then some (.missingName e.name) else none

theorem fault?_block (e : Element) : (Met.block e).fault? = none ↔ e.HasType := by
  cases h : e.attributes.get? "type" <;> simp [Met.fault?, Element.HasType, h]

theorem fault?_part (e : Element) : (Met.part e).fault? = none ↔ e.HasName := by
  cases h : e.attributes.get? "name" <;> simp [Met.fault?, Element.HasName, h]

instance (e : Element) : Decidable e.HasType := decidable_of_iff _ (fault?_block e)

instance (e : Element) : Decidable e.HasName := decidable_of_iff _ (fault?_part e)

/-! ## Parts of blocks -/

theorem elements_element (name : String) (attributes : Ledger String) (children rest : List Node) :
    elements (.element name attributes children :: rest) =
      ⟨name, attributes, children⟩ :: elements rest := rfl

theorem partsOf_element (name : String) (attributes : Ledger String) (children rest : List Node) :
    partsOf (.element name attributes children :: rest) =
      (if ["field", "value", "statement"].contains name then [⟨name, attributes, children⟩]
        else []) ++ partsOf rest := by
  rw [partsOf, elements_element, List.filter_cons]
  split <;> rfl

/-- What is met says about parts that one of them is met if it belongs to a block that is met, or is
one of those named. -/
def Closed (met : List Met) (own : List Element) : Prop :=
  ∀ p, .part p ∈ met ↔ p ∈ own ∨ ∃ e, .block e ∈ met ∧ p ∈ e.parts

theorem Closed.nil : Closed [] [] := by
  simp [Closed]

theorem Closed.append {met met' : List Met} {own own' : List Element} (h : Closed met own)
    (h' : Closed met' own') : Closed (met ++ met') (own ++ own') := by
  intro p
  simp only [List.mem_append, h p, h' p, or_and_right, exists_or]
  exact or_or_or_comm

/-- The parts of a block belong to it once the block itself is met. -/
theorem Closed.block {e : Element} {met : List Met} (h : Closed met e.parts) :
    Closed (.block e :: met) [] := by
  intro p
  simp only [List.mem_cons, h p, reduceCtorEq, false_or, List.not_mem_nil, Met.block.injEq,
    or_and_right, exists_or, exists_eq_left]

mutual

theorem closed_metIn (nodes : List Node) : Closed (metIn nodes) (partsOf nodes) := by
  match nodes with
  | [] =>
    rw [metIn]
    exact .nil
  | .text _ :: rest =>
    rw [metIn]
    exact closed_metIn rest
  | .element name attributes children :: rest =>
    have hplugged : Closed (if ["value", "statement", "next"].contains name then
        ((metFirst "block" children).or (metFirst "shadow" children)).getD [] else []) [] := by
      split
      · cases h : metFirst "block" children with
        | some met => exact closed_metFirst "block" children h
        | none =>
          cases h' : metFirst "shadow" children with
          | some met => exact closed_metFirst "shadow" children h'
          | none => exact .nil
      · exact .nil
    have hown : Closed (if ["field", "value", "statement"].contains name then
        [.part ⟨name, attributes, children⟩] else [])
        (if ["field", "value", "statement"].contains name then [⟨name, attributes, children⟩]
          else []) := by
      split
      · intro p
        simp
      · exact .nil
    have hall := (hown.append hplugged).append (closed_metIn rest)
    rw [List.append_nil] at hall
    rw [metIn, partsOf_element]
    exact hall

theorem closed_metFirst (wanted : String) (nodes : List Node) {met : List Met}
    (h : metFirst wanted nodes = some met) : Closed met [] := by
  match nodes with
  | [] =>
    rw [metFirst] at h
    cases h
  | .text _ :: rest =>
    rw [metFirst] at h
    exact closed_metFirst wanted rest h
  | .element name attributes children :: rest =>
    rw [metFirst] at h
    split at h
    · cases h
      exact Closed.block (closed_metIn children)
    · exact closed_metFirst wanted rest h

end

theorem metOn_element (name : String) (attributes : Ledger String) (children rest : List Node) :
    metOn (.element name attributes children :: rest) =
      (if name = "block" then .block ⟨name, attributes, children⟩ :: metIn children else []) ++
        metOn rest := by
  rw [metOn, elements_element, List.filter_cons]
  split
  · next h =>
    rw [if_pos (of_decide_eq_true h)]
    rfl
  · next h =>
    rw [if_neg (mt (decide_eq_true_iff.2) h)]
    rfl

theorem closed_metOn (nodes : List Node) : Closed (metOn nodes) [] := by
  induction nodes with
  | nil => exact .nil
  | cons node rest ih =>
    cases node with
    | text _ => exact ih
    | element name attributes children =>
      have hhead : Closed (if name = "block" then .block ⟨name, attributes, children⟩ ::
          metIn children else []) [] := by
        split
        · exact Closed.block (closed_metIn children)
        · exact .nil
      rw [metOn_element]
      exact hhead.append ih

theorem mem_blocks {root e : Element} : e ∈ root.blocks ↔ .block e ∈ root.met := by
  rw [Element.blocks, List.mem_filterMap]
  constructor
  · rintro ⟨_ | _, hmem, heq⟩
    · cases heq
      exact hmem
    · cases heq
  · exact fun hmem => ⟨_, hmem, rfl⟩

/-- Nothing that is met is at fault if every block has a type and all its parts have names. -/
theorem met_faultless_iff (root : Element) : (∀ m ∈ root.met, m.fault? = none) ↔
    ∀ e ∈ root.blocks, e.HasType ∧ ∀ p ∈ e.parts, p.HasName := by
  constructor
  · intro h e he
    rw [mem_blocks] at he
    refine ⟨(fault?_block e).1 (h _ he), ?_⟩
    intro p hp
    exact (fault?_part p).1 (h _ ((closed_metOn root.children p).2 (.inr ⟨e, he, hp⟩)))
  · intro h m hm
    cases m with
    | block e => exact (fault?_block e).2 (h e (mem_blocks.2 hm)).1
    | part p =>
      obtain ⟨e, he, hp⟩ := ((closed_metOn root.children p).1 hm).resolve_left List.not_mem_nil
      exact (fault?_part p).2 ((h e (mem_blocks.2 he)).2 p hp)

end Markup

/-! ## Faults -/

/-- What an attempt to read fails with. -/
def LoadError.of? {α : Type} : Except LoadError α → Option LoadError
  | .ok _ => none
  | .error fault => some fault

namespace LoadError

variable {α β : Type}

theorem of?_eq_some_iff {x : Except LoadError α} {fault : LoadError} :
    of? x = some fault ↔ x = .error fault := by
  cases x <;> simp [of?]

theorem of?_eq_none_iff {x : Except LoadError α} : of? x = none ↔ ∃ a, x = .ok a := by
  cases x <;> simp [of?]

theorem of?_bind_pure (x : Except LoadError α) (f : α → β) :
    of? (x >>= fun a => pure (f a)) = of? x := by
  cases x <;> rfl

/-- The first step that fails tells the fault. -/
theorem of?_bind {x : Except LoadError α} {f : α → Except LoadError β} (later : Option LoadError)
    (h : ∀ a, of? (f a) = later) : of? (x >>= f) = (of? x).or later := by
  cases x with
  | error fault => rfl
  | ok a => exact h a

end LoadError

namespace Outline

open Markup LoadError

theorem of?_head? (e : Element) : of? (head? e.attributes) = (Met.block e).fault? := by
  cases h : e.attributes.get? "type" with
  | none => simp [head?, Met.fault?, h, of?]
  | some type =>
    cases hblank : Text.allBlank type.toList <;>
      simp [head?, Met.fault?, h, hblank, of?, Option.filter_some]

theorem of?_name? (e : Element) : of? (name? e.name e.attributes) = (Met.part e).fault? := by
  cases h : e.attributes.get? "name" <;> simp [name?, Met.fault?, h, of?]

theorem metFirst_eq_none {wanted : String} {nodes : List Node}
    (h : nodes.any (·.isNamed wanted) = false) : metFirst wanted nodes = none := by
  induction nodes with
  | nil => rw [metFirst]
  | cons node rest ih =>
    rw [List.any_cons, Bool.or_eq_false_iff] at h
    cases node with
    | text _ =>
      rw [metFirst]
      exact ih h.2
    | element name attributes children =>
      rw [metFirst, if_neg (by simpa [Node.isNamed] using h.1)]
      exact ih h.2

theorem metFirst_ne_none {wanted : String} {nodes : List Node}
    (h : nodes.any (·.isNamed wanted) = true) : metFirst wanted nodes ≠ none := by
  induction nodes with
  | nil => cases h
  | cons node rest ih =>
    rw [List.any_cons, Bool.or_eq_true] at h
    cases node with
    | text _ =>
      rw [metFirst]
      exact ih (h.resolve_left nofun)
    | element name attributes children =>
      rw [metFirst]
      split
      · nofun
      · next hname => exact ih (h.resolve_left fun hnamed => hname (eq_of_beq hnamed))

/-- A block that is plugged in hides a shadow. -/
theorem metFirst_wanted (nodes : List Node) :
    (metFirst "block" nodes).or (metFirst "shadow" nodes) = metFirst (wanted nodes) nodes := by
  unfold wanted
  split
  · next h =>
    obtain ⟨met, hmet⟩ := Option.ne_none_iff_exists'.1 (metFirst_ne_none h)
    rw [hmet, Option.some_or]
  · next h => rw [metFirst_eq_none (Bool.eq_false_iff.2 h), Option.none_or]

/-- The first fault among what is met. -/
def firstFault (met : List Met) : Option LoadError := met.findSome? Met.fault?

theorem firstFault_append (met met' : List Met) :
    firstFault (met ++ met') = (firstFault met).or (firstFault met') :=
  List.findSome?_append

theorem firstFault_nil : firstFault [] = none := rfl

theorem firstFault_cons (m : Met) (met : List Met) :
    firstFault (m :: met) = m.fault?.or (firstFault met) := by
  rw [firstFault, List.findSome?_cons]
  cases m.fault? <;> rfl

mutual

theorem of?_content? (nodes : List Node) : of? (content? nodes) = firstFault (metIn nodes) := by
  match nodes with
  | [] =>
    rw [content?, metIn]
    rfl
  | .text _ :: rest =>
    rw [content?, metIn]
    exact of?_content? rest
  | .element element attributes children :: rest =>
    have hname : of? (name? element attributes) =
      (Met.part ⟨element, attributes, children⟩).fault? := of?_name? ⟨element, attributes, children⟩
    have hrest := of?_content? rest
    have hlink (link : Link) : of? (do
          let found ← connected? (wanted children) children
          let others ← content? rest
          return attach link found others) =
        (firstFault ((metFirst (wanted children) children).getD [])).or
          (firstFault (metIn rest)) := by
      rw [of?_bind (of? (content? rest)) fun _ => of?_bind_pure .., hrest,
        of?_connected? (wanted children) children]
    unfold content?
    rw [metIn, metFirst_wanted, firstFault_append, firstFault_append]
    split
    · rw [of?_bind_pure, hrest]
      simp [firstFault_nil]
    · rw [of?_bind (of? (content? rest)) fun _ => of?_bind_pure .., hname, hrest]
      simp [firstFault_nil, firstFault_cons]
    · rw [of?_bind _ fun name => hlink (.value name), hname]
      simp [firstFault_nil, firstFault_cons, Option.or_assoc]
    · rw [of?_bind _ fun name => hlink (.statement name), hname]
      simp [firstFault_nil, firstFault_cons, Option.or_assoc]
    · rw [hlink .next]
      simp [firstFault_nil]
    · -- other elements are passed over
      next hmutation hfield hvalue hstatement hnext =>
      simp [hrest, firstFault_nil, show ¬element = "field" from hfield,
        show ¬element = "value" from hvalue, show ¬element = "statement" from hstatement,
        show ¬element = "next" from hnext]

theorem of?_connected? (wanted : String) (nodes : List Node) :
    of? (connected? wanted nodes) = firstFault ((metFirst wanted nodes).getD []) := by
  match nodes with
  | [] =>
    rw [connected?, metFirst]
    rfl
  | .text _ :: rest =>
    rw [connected?, metFirst]
    exact of?_connected? wanted rest
  | .element element attributes children :: rest =>
    unfold connected?
    rw [metFirst]
    by_cases helement : element = wanted
    · rw [if_pos helement, if_pos (beq_iff_eq.2 helement)]
      refine (of?_bind (of? (content? children)) fun _ => of?_bind_pure ..).trans ?_
      rw [Option.getD_some, firstFault_cons, of?_content? children,
        of?_head? ⟨element, attributes, children⟩]
    · rw [if_neg helement, if_neg fun h => helement (eq_of_beq h)]
      exact of?_connected? wanted rest

end

/-- Reading the top of a document fails with the first fault of what is met there. -/
theorem of?_items? (nodes : List Node) : of? (items? nodes) = firstFault (metOn nodes) := by
  induction nodes with
  | nil => rfl
  | cons node rest ih =>
    cases node with
    | text _ => exact ih
    | element element attributes children =>
      unfold items?
      rw [metOn_element, firstFault_append]
      split
      · rw [of?_bind_pure, ih]
        rfl
      · rw [of?_bind ((firstFault (metIn children)).or (firstFault (metOn rest))), if_pos rfl,
          firstFault_cons, of?_head? ⟨"block", attributes, children⟩, Option.or_assoc]
        intro head
        rw [of?_bind (firstFault (metOn rest)), of?_content?]
        intro content
        rw [of?_bind_pure, ih]
      · next hvariables hblock =>
        rw [if_neg hblock]
        exact ih

end Outline

end BlockCompiler
