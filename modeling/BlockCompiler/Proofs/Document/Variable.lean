import BlockCompiler.Proofs.Document.Forest
import BlockCompiler.Proofs.Document.Text
import BlockCompiler.Proofs.Emission.Variable

set_option autoImplicit false

/-! # The variables of a document

A field that names a variable declares it when it is read, so a workspace knows every variable that
one of its blocks names. Bringing a block into another form drops such a field, and no operation drops
a name that was declared. -/

namespace BlockCompiler

open Workspace

/-- Every variable that a block names is known to the workspace. -/
def Workspace.KnowsVariables (w : Workspace) : Prop :=
  ∀ id b text, w.block? id = some b → b.field? "VAR" = some text → text ∈ w.variableNames

namespace Outline

/-! ## What is read -/

/-- Every field that names a variable declares it. -/
def Content.Declares : Content → Prop
  | .done => True
  | .mutation _ rest => rest.Declares
  | .field name _ declares rest => (name = "VAR" → declares = true) ∧ rest.Declares
  | .link _ _ inner rest => inner.Declares ∧ rest.Declares

theorem attach_declares (link : Link) {found : Option (Head × Content)} {rest : Content}
    (hfound : ∀ head inner, found = some (head, inner) → inner.Declares) (hrest : rest.Declares) :
    (attach link found rest).Declares := by
  cases found with
  | none => exact hrest
  | some found => exact ⟨hfound _ _ rfl, hrest⟩

/-- What a step that succeeds goes on with. -/
theorem exists_of_bind_ok {ε α β : Type} {x : Except ε α} {f : α → Except ε β} {b : β}
    (h : x >>= f = .ok b) : ∃ a, x = .ok a ∧ f a = .ok b := by
  cases x with
  | error e => cases h
  | ok a => exact ⟨a, rfl, h⟩

mutual

/-- The content of a block declares the variables that its fields name. -/
theorem content?_declares (nodes : List Markup.Node) {content : Content}
    (h : content? nodes = .ok content) : content.Declares := by
  match nodes with
  | [] =>
    rw [content?] at h
    cases h
    trivial
  | .text _ :: rest =>
    rw [content?] at h
    exact content?_declares rest h
  | .element element attributes children :: rest =>
    unfold content? at h
    split at h
    · -- a mutation declares nothing
      obtain ⟨others, hothers, h⟩ := exists_of_bind_ok h
      cases h
      have hdeclares : others.Declares := content?_declares rest hothers
      exact hdeclares
    · -- a field that names a variable declares it
      obtain ⟨name, -, h⟩ := exists_of_bind_ok h
      obtain ⟨others, hothers, h⟩ := exists_of_bind_ok h
      cases h
      refine ⟨?_, content?_declares rest hothers⟩
      rintro rfl
      exact Bool.or_true _
    · obtain ⟨name, -, h⟩ := exists_of_bind_ok h
      obtain ⟨found, hfound, h⟩ := exists_of_bind_ok h
      obtain ⟨others, hothers, h⟩ := exists_of_bind_ok h
      cases h
      exact attach_declares _ (connected?_declares _ children hfound) (content?_declares rest hothers)
    · obtain ⟨name, -, h⟩ := exists_of_bind_ok h
      obtain ⟨found, hfound, h⟩ := exists_of_bind_ok h
      obtain ⟨others, hothers, h⟩ := exists_of_bind_ok h
      cases h
      exact attach_declares _ (connected?_declares _ children hfound) (content?_declares rest hothers)
    · obtain ⟨found, hfound, h⟩ := exists_of_bind_ok h
      obtain ⟨others, hothers, h⟩ := exists_of_bind_ok h
      cases h
      exact attach_declares _ (connected?_declares _ children hfound) (content?_declares rest hothers)
    · -- other elements are passed over
      exact content?_declares rest h

/-- So does the content of the blocks inside. -/
theorem connected?_declares (wanted : String) (nodes : List Markup.Node)
    {found : Option (Head × Content)} (h : connected? wanted nodes = .ok found) :
    ∀ head inner, found = some (head, inner) → inner.Declares := by
  match nodes with
  | [] =>
    rw [connected?] at h
    cases h
    exact nofun
  | .text _ :: rest =>
    rw [connected?] at h
    exact connected?_declares wanted rest h
  | .element element attributes children :: rest =>
    unfold connected? at h
    split at h
    · obtain ⟨head, -, h⟩ := exists_of_bind_ok h
      obtain ⟨content, hcontent, h⟩ := exists_of_bind_ok h
      cases h
      rintro _ _ ⟨⟩
      exact content?_declares children hcontent
    · exact connected?_declares wanted rest h

end

theorem items?_declares (nodes : List Markup.Node) {items : List Item}
    (h : items? nodes = .ok items) : ∀ head content, .stack head content ∈ items →
      content.Declares := by
  induction nodes generalizing items with
  | nil =>
    cases h
    exact nofun
  | cons node rest ih =>
    cases node with
    | text _ => exact ih h
    | element element attributes children =>
      unfold items? at h
      split at h
      · obtain ⟨others, hothers, h⟩ := exists_of_bind_ok h
        cases h
        intro head content hmem
        rcases List.mem_cons.1 hmem with heq | hmem
        · cases heq
        · exact ih hothers head content hmem
      · obtain ⟨found, -, h⟩ := exists_of_bind_ok h
        obtain ⟨inner, hinner, h⟩ := exists_of_bind_ok h
        obtain ⟨others, hothers, h⟩ := exists_of_bind_ok h
        cases h
        intro head content hmem
        rcases List.mem_cons.1 hmem with heq | hmem
        · cases heq
          exact content?_declares children hinner
        · exact ih hothers head content hmem
      · exact ih h

/-! ## What is built -/

variable {w : Workspace}

theorem declare_knows (h : w.KnowsVariables) (name : String) :
    (w.declare name).KnowsVariables ∧ name ∈ (w.declare name).variableNames := by
  unfold declare
  split
  · next hknown => exact ⟨h, List.contains_iff_mem.1 hknown⟩
  · refine ⟨fun id b text hb htext => List.mem_append_left _ (h id b text hb htext), ?_⟩
    exact List.mem_append_right _ List.mem_cons_self

theorem declareAll_knows (names : List String) (h : w.KnowsVariables) :
    (names.foldl declare w).KnowsVariables := by
  induction names generalizing w with
  | nil => exact h
  | cons name names ih => exact ih (declare_knows h name).1

/-- A block may be changed so that its variable is one that is known. -/
theorem modify_knows (h : w.KnowsVariables) (id : BlockId) {change : Block → Block}
    (hchange : ∀ b text, (change b).field? "VAR" = some text →
      text ∈ w.variableNames ∨ b.field? "VAR" = some text) :
    (w.modify id change).KnowsVariables := by
  intro j b' text hb' htext
  rw [block?_modify] at hb'
  split at hb'
  · obtain ⟨b, hb, rfl⟩ := Option.map_eq_some_iff.1 hb'
    exact (hchange b text htext).elim (fun hmem => hmem) (h j b text hb)
  · exact h j b' text hb' htext

theorem connect_knows (h : w.KnowsVariables) (link : Link) (parent child : BlockId) :
    (link.connect w parent child).KnowsVariables := by
  rw [connect_eq_modify]
  refine modify_knows h parent fun b text htext => .inr ?_
  cases link <;> exact htext

theorem add_knows (h : w.KnowsVariables) (head : Head) (number : BlockId) :
    (w.add (head.block number)).KnowsVariables := by
  intro id b text hb htext
  rw [block?_add] at hb
  split at hb
  · -- a new block has no fields yet
    obtain rfl := Option.some_inj.1 hb
    cases htext
  · exact h id b text hb htext

/-- The form of a block that writes a run of pins names no variable. -/
theorem field?_reshape (g : PinGroup) (b : Block) : (g.reshape b).field? "VAR" = none := by
  refine List.lookup_eq_none_iff.2 fun entry hentry => ?_
  simp only [PinGroup.reshape, List.mem_cons, List.mem_map] at hentry
  rcases hentry with rfl | rfl | rfl | ⟨pin, -, rfl⟩
  · rfl
  · rfl
  · rfl
  · -- the fields of pins begin with another letter
    refine bne_iff_ne.2 fun heq => ?_
    have hhead := congrArg (fun name => name.toList.head?) heq
    simp [PinGroup.bitField] at hhead

theorem settle_knows (h : w.KnowsVariables) (id : BlockId) : (settle w id).KnowsVariables := by
  unfold settle
  split
  · next b hb =>
    split
    · obtain ⟨hid, -⟩ := Array.getElem?_eq_some_iff.1 hb
      intro j b' text hb' htext
      rw [block?_exchange w _ hid] at hb'
      split at hb'
      · obtain rfl := Option.some_inj.1 hb'
        rw [field?_reshape] at htext
        cases htext
      · exact h j b' text hb' htext
    · exact h
  · exact h

theorem Content.place_knows (content : Content) (id : BlockId) (hdeclares : content.Declares)
    (h : w.KnowsVariables) : (content.place id w).KnowsVariables := by
  induction content generalizing w id with
  | done => exact h
  | mutation attributes rest ih =>
    exact ih id hdeclares (modify_knows h id fun _ _ htext => .inr htext)
  | field name text declares rest ih =>
    -- the text is known by the time that the field is written
    have hknown : (if declares then w.declare text else w).KnowsVariables ∧
        (declares = true → text ∈ (if declares then w.declare text else w).variableNames) := by
      cases declares with
      | false => exact ⟨h, nofun⟩
      | true => exact (declare_knows h text).imp_right fun hmem _ => hmem
    refine ih id hdeclares.2 (modify_knows hknown.1 id fun b found hfound => ?_)
    rw [Block.field?, Ledger.get?_put] at hfound
    split at hfound
    · next hname =>
      obtain rfl := Option.some_inj.1 hfound
      exact .inl (hknown.2 (hdeclares.1 (eq_of_beq hname).symm))
    · exact .inr hfound
  | link link head inner rest ihinner ihrest =>
    refine ihrest id hdeclares.2 (connect_knows ?_ link id _)
    exact settle_knows (ihinner _ hdeclares.1 (add_knows h head _)) _

theorem Item.place_knows (item : Item) (hdeclares : ∀ head content, item = .stack head content →
    content.Declares) (h : w.KnowsVariables) : (item.place w).KnowsVariables := by
  cases item with
  | declarations names => exact declareAll_knows names h
  | stack head content =>
    have htop : (w.addTop (head.block w.nextId)).KnowsVariables := add_knows h head _
    exact settle_knows (content.place_knows _ (hdeclares head content rfl) htop) _

theorem items_know (items : List Item) (hdeclares : ∀ head content, .stack head content ∈ items →
    content.Declares) (h : w.KnowsVariables) : (items.foldl Item.place w).KnowsVariables := by
  induction items generalizing w with
  | nil => exact h
  | cons item items ih =>
    refine ih (fun head content hmem => hdeclares head content (List.mem_cons_of_mem _ hmem)) ?_
    exact item.place_knows (fun head content heq =>
      hdeclares head content (heq ▸ List.mem_cons_self)) h

end Outline

namespace Document

/-- A document knows every variable that one of its blocks names. -/
theorem load_knowsVariables {parse : Markup.Parser} {source : String} {d : Document}
    (h : load parse source = .ok d) :
    d.workspace.KnowsVariables := by
  obtain ⟨nodes, items, hitems, hworkspace⟩ := load_eq_items h
  rw [hworkspace]
  exact Outline.items_know items (Outline.items?_declares nodes hitems) nofun

/-- Every variable that a block of a document names is declared in the program, whether or not the
block takes part in it, for whatever board: as an array, or with its type, or as an integer. No
variable is declared twice. -/
theorem declares_variables {parse : Markup.Parser} {source : String} {d : Document}
    (h : load parse source = .ok d) (board? : Option Board) :
    (∀ id b text, d.workspace.block? id = some b → b.field? "VAR" = some text →
      ∃ declaration, (d.project board?).DeclaresAs (Identifier.ofName text) declaration ∧
        (d.project board?).Lists "Global Variables and Objects" "\n" declaration) ∧
      (((d.project board?).variableDeclarations (d.project board?).final.context).map
        Identifier.ofDeclaration).Nodup :=
  ⟨fun _ _ _ hb htext => Project.exists_declaresAs (load_knowsVariables h _ _ _ hb htext),
    Project.nodup_variables⟩

/-- A document in which a disabled block and a counting loop name two variables that become the same
identifier, and an array shares the name of a third. -/
def merged : Document where
  workspace :=
    { blocks := #[
        { id := "array_init#0", type := "array_init", fields := ⟨[("VAR", "list")]⟩ },
        { id := "variables_set#1", type := "variables_set", fields := ⟨[("VAR", "my var")]⟩
          disabled := true },
        { id := "controls_for#2", type := "controls_for", fields := ⟨[("VAR", "my-var")]⟩ },
        { id := "math_crement#3", type := "math_crement", fields := ⟨[("VAR", "list")]⟩ }]
      top := [0, 1, 2, 3]
      index := [0, 1, 2, 3]
      variableNames := ["list", "my var", "my-var"] }
  board? := none

/-- The text of the document above. -/
def mergedText : String :=
  "<xml><block type='array_init'><field name='VAR'>list</field></block>" ++
    "<block type='variables_set' disabled='true'><field name='VAR'>my var</field></block>" ++
    "<block type='controls_for'><field name='VAR'>my-var</field></block>" ++
    "<block type='math_crement'><field name='VAR'>list</field></block></xml>"

theorem declares_variables_merged : ofText mergedText = .ok merged ∧
    (∃ declaration, (merged.project none).DeclaresAs "my_var" declaration ∧
      (merged.project none).Lists "Global Variables and Objects" "\n" declaration) ∧
    (((merged.project none).variableDeclarations (merged.project none).final.context).map
      Identifier.ofDeclaration).Nodup := by
  have h : ofText mergedText = .ok merged :=
    ofText_of_chars (append_eq_ofList (append_eq_ofList (append_eq_ofList rfl rfl) rfl) rfl)
      (by decide +kernel)
  obtain ⟨hdeclares, hnodup⟩ := declares_variables h none
  have hname : Identifier.ofName "my var" = "my_var" := by decide +kernel
  exact ⟨h, hname ▸ hdeclares 1 _ "my var" rfl rfl, hnodup⟩

end Document

end BlockCompiler
