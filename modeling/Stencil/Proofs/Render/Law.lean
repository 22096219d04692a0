import Mathlib.Tactic.SplitIfs
import Stencil.Proofs.Library.Growth
import Stencil.Proofs.Render.Course
import Stencil.Proofs.Render.Run

/-!
# Laws of evaluation

What holds of a whole evaluation because it holds of its parts.

## Main definitions

* `Render.Task.act` — the evaluation of a piece, `Render.Task.deeper` — the piece with more depth
* `Render.Law` — a property of acts that passes from parts to wholes
* `Render.Law.Along` — the law for a piece and the same piece with more depth

## Main results

* `Render.Leads.induct` — induction over what a piece leads to
* `Render.Law.along_of_reaches` — a law holds of a piece if it holds of all checks of what renders
  once, of all files looked up, and of all pieces out of depth, that the piece comes to

## Design notes

A law speaks of two acts, so that an evaluation can be compared with the one that has more depth; a
law about single acts ignores the second one.  The three primitives that laws differ in are left out
of the structure: the check of what renders once, the look for a file, which alone changes what a
library keeps, and the halt where the depth is used up.
-/

namespace Stencil

open Markup

/-- A context in which other things have been rendered once. -/
def Context.withSeen (c : Context) (seen : List OnceKey) : Context := { c with seen }

namespace Render

/-- The evaluation of a piece, as the function does it that the piece is named for. -/
def Task.act : Task → Render (List NodeId)
  | .template depth t => Render.template (nodes depth) t
  | .siblings depth t ids => nodes depth t ids
  | .groups depth t bound ids => Render.groups (Render.node (nodes depth) t) t bound ids
  | .chain depth t ids => Render.chain (Render.node (nodes depth) t) t ids
  | .node depth t id => Render.node (nodes depth) t id
  | .entries depth t id e clause members => eachEntry clause (nodeOnce (nodes depth) t id e) members
  | .once depth t id e => nodeOnce (nodes depth) t id e
  | .include depth t e => includeFile (nodes depth) t e
  | .wrapper depth t e => Render.wrapper (nodes depth) t e
  | .slot depth t e => Render.slot (nodes depth) t e
  | .element depth t e => Render.element (nodes depth) t e

/-- The same piece with more depth. Depth is a bound for nesting and nothing else, so a piece that
gets by with its depth does the same with more. -/
def Task.deeper (k : Nat) : Task → Task
  | .template depth t => .template (k + depth) t
  | .siblings depth t ids => .siblings (k + depth) t ids
  | .groups depth t bound ids => .groups (k + depth) t bound ids
  | .chain depth t ids => .chain (k + depth) t ids
  | .node depth t id => .node (k + depth) t id
  | .entries depth t id e clause members => .entries (k + depth) t id e clause members
  | .once depth t id e => .once (k + depth) t id e
  | .include depth t e => .include (k + depth) t e
  | .wrapper depth t e => .wrapper (k + depth) t e
  | .slot depth t e => .slot (k + depth) t e
  | .element depth t e => .element (k + depth) t e

/-- An element that is due is evaluated as what it is, or copied. -/
theorem act_once (depth : Nat) (t : Template) (id : NodeId) (e : Element) :
    (Task.once depth t id e).act = (do
      if ← isDue id e then ((construct? depth t e).map Task.act).getD (copy t id)
      else return []) := by
  refine congrArg (isDue id e >>= ·) (funext fun due => ?_)
  cases due with
  | false => rfl
  | true =>
      rw [if_neg (by decide), if_pos rfl, construct?]
      split_ifs <;> rfl

/-- What an element is does not depend on the depth that is left. -/
theorem construct?_add (k depth : Nat) (t : Template) (e : Element) :
    construct? (k + depth) t e = (construct? depth t e).map (Task.deeper k) := by
  unfold construct?
  split_ifs <;> rfl

/-! ### Induction over what a piece leads to -/

/-- How much there is to a piece: its depth, then its kind, then its length. -/
def Task.size : Task → Nat × Nat × Nat
  | .template depth _ => (depth, 7, 0)
  | .siblings depth _ _ => (depth, 0, 0)
  | .groups depth _ bound _ => (depth, 6, bound)
  | .chain depth _ ids => (depth, 5, ids.length)
  | .node depth _ _ => (depth, 4, 0)
  | .entries depth _ _ _ _ members => (depth, 3, members.length)
  | .once depth _ _ _ => (depth, 2, 0)
  | .include depth _ _ | .wrapper depth _ _ | .slot depth _ _ | .element depth _ _ => (depth, 1, 0)

variable {task task' : Task} {c c' : Context}

/-- What a piece leads to is less than the piece. -/
theorem Leads.size_lt (h : Leads task c task' c') :
    Prod.Lex (· < ·) (Prod.Lex (· < ·) (· < ·)) task'.size task.size := by
  cases h with
  | due _ hconstruct =>
      unfold construct? at hconstruct
      split at hconstruct
      · exact nomatch hconstruct
      · split at hconstruct
        · cases hconstruct
          simp [Task.size, Prod.lex_def]
        · split at hconstruct
          · cases hconstruct
            simp [Task.size, Prod.lex_def]
          · split at hconstruct <;> cases hconstruct <;> simp [Task.size, Prod.lex_def]
  | _ => simp [Task.size, Prod.lex_def]

/-- What holds of a piece whenever it holds of all that the piece leads to holds of every piece. The
measure is the depth, then the kind of the piece, then how many siblings or members are left. -/
theorem Leads.induct {P : Task → Context → Prop}
    (h : ∀ task c, (∀ task' c', Leads task c task' c' → P task' c') → P task c) :
    ∀ task c, P task c := by
  have hwf := (Prod.lex Nat.lt_wfRel (Prod.lex Nat.lt_wfRel Nat.lt_wfRel)).wf
  intro task
  induction task using (InvImage.wf Task.size hwf).induction with
  | h task ih => exact fun c => h task c fun task' c' hleads => ih task' hleads.size_lt c'

/-! ### Laws -/

/-- A change of the context in which what was rendered once plays no part, and that leaves the
library as it is. -/
structure Blind (change : Context → Context) : Prop where
  seen : ∀ c seen, change (c.withSeen seen) = (change c).withSeen seen
  library : ∀ c, (change c).library = c.library

/-- The template of a file, or why there is none. -/
def lookUp (file : String) : Render (Except Fault Template) :=
  modifyGet fun c => ((c.library.load file).1, c.withLibrary (c.library.load file).2)

/-- To load a file is to look it up; a failure names the files around. -/
theorem load_eq (file : String) : load file = annotated (lookUp file >>= ofExcept) := rfl

/-- A property of two acts in a context that passes from parts to wholes. -/
structure Law where
  Holds : {α : Type} → Render α → Render α → Context → Prop
  reads : ∀ {α : Type} {act : Render α} {c : Context}, Readonly act → Holds act act c
  seq : ∀ {α β : Type} {act act' : Render α} {next next' : α → Render β} {c : Context},
    Holds act act' c →
    (∀ a c₁, act.run c = (.ok a, c₁) → Holds (next a) (next' a) c₁) →
    Holds (act >>= next) (act' >>= next') c
  change : ∀ {α : Type} {view : Context → α} {change : Context → Context} {c : Context},
    (∀ c seen, view (Context.withSeen c seen) = view c) → Blind change →
    Holds (modifyGet fun c => (view c, change c)) (modifyGet fun c => (view c, change c)) c
  inside : ∀ {α : Type} {enter leave : Context → Context} {act act' : Render α} {c : Context},
    Blind enter → Blind leave → Holds act act' (enter c) →
    Holds (within enter leave act) (within enter leave act') c
  annotation : ∀ {α : Type} {act act' : Render α} {c : Context}, Holds act act' c →
    Holds (annotated act) (annotated act') c

namespace Law

variable {L : Law} {α β : Type}

/-! Primitives -/

/-- A law holds of what returns a value. -/
theorem holds_pure (a : α) : L.Holds (pure a) (pure a) c := L.reads (readonly_pure a)

/-- A law holds of what fails with a fault other than that of endless layouts. -/
theorem holds_fail {fault : Fault} (h : fault.Acyclic) :
    L.Holds (fail fault : Render α) (fail fault) c :=
  L.reads (readonly_fail h)

/-- A law holds of what reads first if it holds of all that comes next. -/
theorem holds_readonly_bind {act : Render α} {next next' : α → Render β} (h : Readonly act)
    (hn : ∀ a c₁, act.run c = (.ok a, c₁) → L.Holds (next a) (next' a) c₁) :
    L.Holds (act >>= next) (act >>= next') c :=
  L.seq (L.reads h) hn

/-- What gives a view of the context, but not of what was rendered once. -/
theorem holds_view {act : Render α} {view : Context → α} (hrun : ∀ c, act.run c = (.ok (view c), c))
    (hview : ∀ c seen, view (Context.withSeen c seen) = view c) : L.Holds act act c := by
  obtain rfl : act = modifyGet fun c => (view c, c) := Act.ext hrun
  exact L.change hview ⟨fun _ _ => rfl, fun _ => rfl⟩

/-- A look at the context, but not at what was rendered once. -/
theorem holds_look {next : Context → Render α}
    (hnext : ∀ c seen, next (Context.withSeen c seen) = next c) (h : L.Holds (next c) (next c) c) :
    L.Holds (get >>= next) (get >>= next) c := by
  -- A look gives the act that comes next.
  have hget : (get >>= next) = (modifyGet fun c => (next c, c)) >>= id := Act.ext fun c => by
    rw [Act.run_get_bind, Act.run_bind, Act.run_modifyGet]
    rfl
  rw [hget]
  refine L.seq (L.change hnext ⟨fun _ _ => rfl, fun _ => rfl⟩) fun a c₁ hrun => ?_
  rw [Act.run_modifyGet, Prod.mk.injEq, Except.ok.injEq] at hrun
  obtain ⟨rfl, rfl⟩ := hrun
  exact h

/-- A law holds of the allocation of a node. -/
theorem holds_allocated (node : Node) :
    L.Holds (do return [← allocate node]) (do return [← allocate node]) c :=
  L.seq (L.change (fun _ _ => rfl) ⟨fun _ _ => rfl, fun _ => rfl⟩) fun _ _ _ => holds_pure _

/-- A law holds of a change in which what was rendered once plays no part. -/
theorem holds_modify {change : Context → Context} (h : Blind change) :
    L.Holds (modify change) (modify change) c := by
  have hchange :
      L.Holds (modifyGet fun c => ((), change c)) (modifyGet fun c => ((), change c)) c :=
    L.change (fun _ _ => rfl) h
  exact hchange

/-- A law holds of setting a variable. -/
theorem holds_setVariable (name : String) (value : Value) :
    L.Holds (setVariable name value) (setVariable name value) c :=
  holds_modify ⟨fun _ _ => rfl, fun _ => rfl⟩

/-- A law holds of the look for slot content. -/
theorem holds_passed? (name : String) : L.Holds (passed? name) (passed? name) c :=
  holds_view (run_passed? name) fun _ _ => rfl

/-- A law holds of a copy of a part of a template, also of one that fails. -/
theorem holds_copy (t : Template) (id : NodeId) : L.Holds (copy t id) (copy t id) c := by
  refine holds_look (fun _ _ => rfl) ?_
  cases c.out.deepCopy? t.arena id with
  | some copied =>
      exact L.seq (holds_modify ⟨fun _ _ => rfl, fun _ => rfl⟩) fun _ _ _ => holds_pure _
  | none => exact holds_fail fun h => nomatch h

/-- A law holds of putting markup that was read from a value into the output. -/
theorem holds_markup (roots : List NodeId) : L.Holds (markup roots) (markup roots) c := by
  refine holds_look (fun _ _ => rfl) ?_
  cases roots.mapM c.out.tree? with
  | some forest => exact holds_pure _
  | none => exact holds_fail fun h => nomatch h

/-- The law holds of the loading of a file if it does of the look for it. -/
theorem holds_load {file : String} (h : L.Holds (lookUp file) (lookUp file) c) :
    L.Holds (load file) (load file) c := by
  rw [load_eq]
  refine L.annotation (L.seq h fun result c₁ hrun => ?_)
  rw [lookUp, Act.run_modifyGet, Prod.mk.injEq, Except.ok.injEq] at hrun
  cases result with
  | ok t => exact holds_pure t
  | error fault =>
      have hio : fault.category = .io := Library.category_of_load hrun.1
      exact holds_fail fun hcycle => nomatch hio.symm.trans hcycle

/-! What constructs add for their content -/

/-- A law passes through a frame of variables. -/
theorem holds_withFrame {act act' : Render α} (frame : Frame)
    (h : L.Holds act act' (c.inFrame frame)) :
    L.Holds (withFrame frame act) (withFrame frame act') c :=
  L.inside ⟨fun _ _ => rfl, fun _ => rfl⟩ ⟨fun _ _ => rfl, fun _ => rfl⟩ h

/-- A law passes through a tag. -/
theorem holds_withTag {act act' : Render α} (tag : String) (h : L.Holds act act' (c.inTag tag)) :
    L.Holds (withTag tag act) (withTag tag act') c :=
  L.inside ⟨fun _ _ => rfl, fun _ => rfl⟩ ⟨fun _ _ => rfl, fun _ => rfl⟩ h

/-- A law passes through slot content that is passed. -/
theorem holds_withSlots {act act' : Render α} (slots : SlotScope)
    (h : L.Holds act act' (c.inSlots slots)) :
    L.Holds (withSlots slots act) (withSlots slots act') c :=
  L.inside ⟨fun _ _ => rfl, fun _ => rfl⟩ ⟨fun _ _ => rfl, fun _ => rfl⟩ h

/-- A law passes out of the innermost slot scope. -/
theorem holds_outsideSlots {act act' : Render α} (own : SlotScope)
    (h : L.Holds act act' c.outside) :
    L.Holds (outsideSlots own act) (outsideSlots own act') c :=
  L.inside ⟨fun _ _ => rfl, fun _ => rfl⟩ ⟨fun _ _ => rfl, fun _ => rfl⟩ h

/-- A law passes through a file that is entered. -/
theorem holds_withFile {act act' : Render α} (file : String)
    (h : L.Holds act act' (c.inFile file)) :
    L.Holds (withFile file act) (withFile file act') c :=
  L.inside ⟨fun _ _ => rfl, fun _ => rfl⟩ ⟨fun _ _ => rfl, fun _ => rfl⟩ (L.annotation h)

/-! Constructs -/

/-- The law for a piece and the same piece with more depth. With no more depth it is a law about the
piece alone. -/
def Along (L : Law) (k : Nat) (task : Task) (c : Context) : Prop :=
  L.Holds task.act (task.deeper k).act c

section Constructs

variable {k depth bound : Nat} {t : Template} {id : NodeId} {ids : List NodeId} {e : Element}

/-- The nodes of a piece that was put together from two. -/
theorem holds_append {here : List NodeId} {rest rest' : Render (List NodeId)}
    (h : L.Holds rest rest' c) :
    L.Holds (do return here ++ (← rest)) (do return here ++ (← rest')) c :=
  L.seq h fun _ _ _ => holds_pure _

/-- A law holds of a group of conditions if it holds of all branches the group leads to. Whether a
branch is taken is read, and reading is under every law. -/
theorem along_chain
    (h : ∀ task' c', Leads (.chain depth t ids) c task' c' → L.Along k task' c') :
    L.Along k (.chain depth t ids) c := by
  cases ids with
  | nil => exact holds_pure []
  | cons id ids =>
      refine holds_readonly_bind (readonly_holds t id) fun found c₁ hrun => ?_
      cases found with
      | true => exact h _ _ (.holds hrun)
      | false => exact h _ _ (.fails hrun)

/-- A law holds of the groups of some siblings if it holds of the first one and of what comes after
it. -/
theorem along_groups
    (h : ∀ task' c', Leads (.groups depth t bound ids) c task' c' → L.Along k task' c') :
    L.Along k (.groups depth t bound ids) c := by
  show L.Holds (groups (node (nodes depth) t) t bound ids)
    (groups (node (nodes (k + depth)) t) t bound ids) c
  cases bound with
  | zero =>
      unfold groups
      exact holds_pure []
  | succ bound =>
      cases ids with
      | nil =>
          unfold groups
          exact holds_pure []
      | cons id ids =>
          unfold groups
          cases hrole : Siblings.role t id with
          | condition =>
              refine L.seq (h _ _ (.condition hrole)) fun here c₁ hrun => ?_
              exact holds_append (h _ _ (.afterChain hrole hrun))
          | orphan => exact h _ _ (.orphan hrole)
          | loop =>
              refine L.seq (h _ _ (.single (.inl hrole))) fun here c₁ hrun => ?_
              cases helse : Siblings.elseAfter? t ids with
              | none =>
                  cases here <;>
                    exact holds_append (h _ _ (.afterSingle (.inr ⟨hrole, .inr helse⟩) hrun))
              | some found =>
                  cases here with
                  | nil =>
                      refine L.seq (h _ _ (.alternative hrole hrun helse)) fun here c₂ hrun₂ => ?_
                      exact holds_append (h _ _ (.afterAlternative hrole hrun helse hrun₂))
                  | cons first others =>
                      have hne : first :: others ≠ [] := List.cons_ne_nil first others
                      exact holds_append (h _ _ (.afterSingle (.inr ⟨hrole, .inl hne⟩) hrun))
          | plain =>
              refine L.seq (h _ _ (.single (.inr hrole))) fun here c₁ hrun => ?_
              exact holds_append (h _ _ (.afterSingle (.inl hrole) hrun))

/-- A law holds of a text node. -/
theorem holds_text (s : String) : L.Holds (text s) (text s) c := by
  unfold text
  split
  · refine holds_look (fun _ _ => rfl) ?_
    refine holds_readonly_bind (readonly_evaluate fun scope => ?_) fun s _ _ => ?_
    · exact Interpolation.textual_interpolate scope _ _
    · exact holds_allocated (.text s)
  · exact holds_allocated (.text s)

/-- A law holds of a node if it holds of all that the node leads to. Whether there is a loop is
read, and reading is under every law. -/
theorem along_node (h : ∀ task' c', Leads (.node depth t id) c task' c' → L.Along k task' c') :
    L.Along k (.node depth t id) c := by
  show L.Holds (node (nodes depth) t id) (node (nodes (k + depth)) t id) c
  unfold node
  cases hget : t.arena.get? id with
  | none => exact holds_fail fun h => nomatch h
  | some found =>
      cases found with
      | text s => exact holds_text s
      | raw s => exact holds_allocated (.raw s)
      | element e =>
          cases hfor : e.get? "v-for" with
          | none =>
              simp only [hfor]
              exact h _ _ (.once hget hfor)
          | some source =>
              cases hclause : LoopClause.parse? source with
              | none =>
                  simp only [hfor, loop, hclause]
                  exact holds_fail fun h => nomatch h
              | some clause =>
                  simp only [hfor, loop, hclause]
                  refine holds_readonly_bind (readonly_collection? _) fun value? c₁ hrun => ?_
                  exact h _ _ (.loop hget hfor hclause hrun)

/-- A law holds of the entries of a loop if it holds of the body in every frame that the loop comes
to. -/
theorem along_entries {clause : LoopClause} {members : List (Value × Value)}
    (h : ∀ task' c', Leads (.entries depth t id e clause members) c task' c' → L.Along k task' c') :
    L.Along k (.entries depth t id e clause members) c := by
  cases members with
  | nil => exact holds_pure []
  | cons entry members =>
      obtain ⟨key, value⟩ := entry
      refine L.seq (holds_withFrame _ (h _ _ .entry)) fun here c₁ hrun => ?_
      exact holds_append (h _ _ (.afterEntry hrun))

/-- The check whether an element is due is what laws differ in. -/
theorem along_once (hdue : L.Holds (isDue id e) (isDue id e) c)
    (h : ∀ task' c', Leads (.once depth t id e) c task' c' → L.Along k task' c') :
    L.Along k (.once depth t id e) c := by
  rw [Along, Task.deeper, act_once, act_once, construct?_add]
  refine L.seq hdue fun due c₁ hrun => ?_
  cases due with
  | false => exact holds_pure []
  | true =>
      cases hconstruct : construct? depth t e with
      | none => exact holds_copy t id
      | some task' => exact h _ _ (.due hrun hconstruct)

/-- A law holds of the content of an include if it holds of the children that are rendered for it.
-/
theorem holds_includedSlots {walk walk' : Walk}
    (h : unnamedChildren t e ≠ [] →
      L.Holds (walk t (unnamedChildren t e)) (walk' t (unnamedChildren t e)) c) :
    L.Holds (includedSlots walk t e) (includedSlots walk' t e) c := by
  unfold includedSlots
  dsimp only
  by_cases hempty : (unnamedChildren t e).isEmpty = true
  · rw [unnamedChildren] at hempty
    rw [if_pos hempty, if_pos hempty]
    exact holds_pure _
  · have hne : unnamedChildren t e ≠ [] := fun hnil => hempty (by rw [hnil]; rfl)
    rw [unnamedChildren] at hempty
    rw [if_neg hempty, if_neg hempty]
    refine L.seq (h hne) fun ids c₁ _ => ?_
    split
    · exact holds_pure _
    · exact holds_pure _

/-- A law holds of an include if it holds of the look for the file and of all that the include leads
to. -/
theorem along_include
    (hload : ∀ file c', Loads (.include depth t e) c file c' →
      L.Holds (lookUp file) (lookUp file) c')
    (h : ∀ task' c', Leads (.include depth t e) c task' c' → L.Along k task' c') :
    L.Along k (.include depth t e) c := by
  refine holds_readonly_bind (readonly_interpolated _) fun file c₁ hfile => ?_
  refine holds_readonly_bind (readonly_arguments e.attributes []) fun args c₂ hargs => ?_
  refine L.seq (holds_includedSlots fun hne => h _ _ (.passing hfile hargs hne))
    fun slots c₃ hslots => ?_
  refine L.seq (holds_load (hload file c₃ (.mk hfile hargs hslots))) fun component c₄ hrun => ?_
  have hbody := h _ _ (.included hfile hargs hslots hrun)
  refine L.seq (holds_withFile _ (holds_withSlots _ (holds_withFrame _ hbody)))
    fun body c₅ _ => ?_
  split
  · exact holds_allocated _
  · exact holds_pure body

/-- A law holds of the variables of a wrapper, set one after the other. -/
theorem holds_setBindings (attributes : Attributes) :
    ∀ c, L.Holds (setBindings attributes) (setBindings attributes) c := by
  induction attributes with
  | nil => exact fun c => holds_pure ()
  | cons entry rest ih =>
      intro c
      unfold setBindings
      split
      · exact ih c
      · split
        · refine holds_readonly_bind (readonly_bound _) fun v c₁ _ => ?_
          exact L.seq (holds_setVariable _ v) fun _ c₂ _ => ih c₂
        · exact ih c

/-- A law holds of a wrapper if it holds of all that the wrapper leads to. -/
theorem along_wrapper
    (h : ∀ task' c', Leads (.wrapper depth t e) c task' c' → L.Along k task' c') :
    L.Along k (.wrapper depth t e) c := by
  refine holds_readonly_bind (readonly_require _) fun _ c₁ hrequire => ?_
  refine L.seq (holds_setBindings e.attributes c₁) fun _ c₂ hset => ?_
  refine holds_readonly_bind (readonly_directive? e "v-html") fun html? c₃ hhtml => ?_
  cases html? with
  | some html => exact holds_allocated _
  | none => exact h _ _ (.wrapper hrequire hset hhtml)

/-- A law holds of a slot if it holds of the content passed to it, or of its children where none is.
-/
theorem along_slot (h : ∀ task' c', Leads (.slot depth t e) c task' c' → L.Along k task' c') :
    L.Along k (.slot depth t e) c := by
  refine L.seq (holds_passed? _) fun found c₁ hpassed => ?_
  rcases found with _ | ⟨own, ids | ⟨definer, id, binding⟩⟩
  · exact h _ _ (.fallback hpassed)
  · exact holds_pure ids
  · refine holds_readonly_bind (readonly_properties e.attributes []) fun frame c₂ hprops => ?_
    cases hcontent : definer.element? id with
    | none => exact holds_pure []
    | some content =>
        have hbody := h _ _ (.content hpassed hprops hcontent)
        exact holds_outsideSlots own (holds_withFrame _ hbody)

/-- A law holds of an element of the output if it holds of its children. -/
theorem along_element
    (h : ∀ task' c', Leads (.element depth t e) c task' c' → L.Along k task' c') :
    L.Along k (.element depth t e) c := by
  refine holds_readonly_bind (readonly_payload? e) fun payload c₁ hpayload => ?_
  refine holds_readonly_bind (readonly_attributesOf e) fun attributes c₂ hattributes => ?_
  cases payload with
  | some payload => exact L.seq (holds_pure []) fun _ _ _ => holds_allocated _
  | none =>
      have hchildren := h _ _ (.children hpayload hattributes)
      exact L.seq (holds_withTag e.tag hchildren) fun _ _ _ => holds_allocated _

end Constructs

/-! Whole pieces -/

variable {k : Nat}

/-- A law holds of a piece if it holds where the piece itself checks what renders once, looks for a
file or has used up its depth, and holds of all that the piece leads to. -/
theorem along_of_leads
    (hdue : ∀ depth t id e, task = .once depth t id e → L.Holds (isDue id e) (isDue id e) c)
    (hload : ∀ file c', Loads task c file c' → L.Holds (lookUp file) (lookUp file) c')
    (hdeep : ∀ t ids, task = .siblings 0 t ids → L.Holds (throw .depth) (nodes k t ids) c)
    (h : ∀ task' c', Leads task c task' c' → L.Along k task' c') : L.Along k task c := by
  cases task with
  | template depth t => exact holds_withFile _ (holds_withFrame _ (h _ _ .template))
  | siblings depth t ids =>
      cases depth with
      | zero => exact hdeep t ids rfl
      | succ depth =>
          have hgroups : L.Along k (.groups depth t ids.length ids) c := h _ _ .siblings
          exact hgroups
  | groups depth t bound ids => exact along_groups h
  | chain depth t ids => exact along_chain h
  | node depth t id => exact along_node h
  | entries depth t id e clause members => exact along_entries h
  | once depth t id e => exact along_once (hdue depth t id e rfl) h
  | «include» depth t e => exact along_include hload h
  | wrapper depth t e => exact along_wrapper h
  | slot depth t e => exact along_slot h
  | element depth t e => exact along_element h

/-- A law holds of a piece if it holds wherever the piece comes to a check of what renders once, to
the look for a file, or to siblings out of depth. -/
theorem along_of_reaches
    (hdue : ∀ depth t id e c', Reaches task c (.once depth t id e) c' →
      L.Holds (isDue id e) (isDue id e) c')
    (hload : ∀ task' c' file c₁, Reaches task c task' c' → Loads task' c' file c₁ →
      L.Holds (lookUp file) (lookUp file) c₁)
    (hdeep : ∀ t ids c', Reaches task c (.siblings 0 t ids) c' →
      L.Holds (throw .depth) (nodes k t ids) c') :
    L.Along k task c := by
  revert hdue hload hdeep
  induction task, c using Leads.induct with
  | h task c ih =>
      intro hdue hload hdeep
      refine along_of_leads ?_ (fun file c₁ => hload task c file c₁ .start) ?_
        fun task' c' hleads => ih task' c' hleads ?_ ?_ ?_
      · rintro depth t id e rfl
        exact hdue depth t id e c .start
      · rintro t ids rfl
        exact hdeep t ids c .start
      · exact fun depth t id e c₁ hr => hdue depth t id e c₁ (hr.of_leads hleads)
      · exact fun task₁ c₁ file c₂ hr => hload task₁ c₁ file c₂ (hr.of_leads hleads)
      · exact fun t ids c₁ hr => hdeep t ids c₁ (hr.of_leads hleads)

end Law
end Render
end Stencil
