import GoFront.Proofs.Scoping.Plan
import Mathlib.Data.List.Forall2

/-!
What the scopes show.

A run of a plan adds to the innermost frame what the plan exports, and changes no other
(`Plan.run_frames`). So an object that an identifier is bound to was declared by an identifier of its
name (`Plan.run_backed`), which stands before it unless the object was there all along
(`Plan.run_ordered`); and what a plan binds depends on the objects the frames show and on nothing else
(`Plan.run_agree`).
-/

namespace GoFront

/-- Whether an identifier is bound to the object that it declares itself, under its name. -/
def Ident.Declares (d : Ident) (e : String × Object) : Prop :=
  d.obj = some e.2 ∧ e.1 = d.name ∧ e.2.name = d.name ∧ e.2.decl = d.namePos

namespace Scope

/-! ### Lookups -/

theorem Frame.mem_of_find? {f : Frame} {name : String} {o : Object} (found : f.find? name = some o) :
    (name, o) ∈ f := by
  obtain ⟨e, here, rfl⟩ := Option.map_eq_some_iff.mp found
  have same : e.1 = name := by simpa using List.find?_some here
  rw [← same]
  exact List.mem_of_find?_eq_some here

theorem Role.mem_of_sees {r : Role} {s : State} {name : String} {o : Object}
    (sees : r.sees? s name = some o) : ∃ f ∈ s.frames, (name, o) ∈ f := by
  have visible (found : s.lookup? name = some o) : ∃ f ∈ s.frames, (name, o) ∈ f := by
    obtain ⟨f, inFrames, here⟩ := List.exists_of_findSome?_eq_some found
    exact ⟨f, inFrames, Frame.mem_of_find? here⟩
  cases r with
  | declared | plain => cases sees
  | used | key =>
      simp only [Role.sees?, Option.ite_none_left_eq_some] at sees
      exact visible sees.2
  | redeclared =>
      obtain ⟨f, isHead, here⟩ := Option.bind_eq_some_iff.mp sees
      exact ⟨f, List.mem_of_mem_head? isHead, Frame.mem_of_find? here⟩

namespace State

@[simp] theorem frames_inside (s : State) : s.inside.frames = [] :: s.frames := rfl

@[simp] theorem frames_outside (s : State) : s.outside.frames = s.frames.tail := rfl

@[simp] theorem frames_note (i : Ident) (s : State) : (s.note i).frames = s.frames := rfl

/-- A declaration adds to the innermost frame. -/
theorem frames_declare {s : State} {f : Frame} {fs : List Frame} (opened : s.frames = f :: fs)
    (kind : ObjKind) (i : Ident) : (s.declare kind i).frames =
      (if i.name = blank then f else (i.name, i.object kind) :: f) :: fs := by
  unfold State.declare
  split
  · exact opened
  · simp [State.insert, opened]

end State

namespace Plan

variable {p : Plan} {s : State}

/-! ### The frames after a run -/

/-- A run adds declarations of exported names to the innermost frame and leaves the others alone. -/
theorem run_frames (p : Plan) {f : Frame} {fs : List Frame} (opened : s.frames = f :: fs) :
    ∃ new : Frame, (p.run s).2.frames = (new ++ f) :: fs ∧
      ∀ e ∈ new, ∃ kind, ∃ d ∈ p.exports, d.name ≠ blank ∧ e = (d.name, d.object kind) := by
  induction p generalizing s f fs with
  | stop => exact ⟨[], opened, by simp⟩
  | visit r i =>
      rw [run_visit]
      refine r.walk_cases i s ?_ ?_ ?_ ?_
      · exact fun o sees => ⟨[], opened, by simp⟩
      · intro kind unseen declares
        by_cases named : i.name = blank
        · exact ⟨[], by simp [State.frames_declare opened, named], by simp⟩
        · refine ⟨[(i.name, i.object kind)], by simp [State.frames_declare opened, named], ?_⟩
          simpa [exports, declares] using ⟨named, kind, rfl⟩
      · exact fun _ _ _ => ⟨[], opened, by simp⟩
      · exact fun _ _ _ => ⟨[], opened, by simp⟩
  | both p q first second =>
      obtain ⟨new, midway, fromFirst⟩ := first opened
      obtain ⟨newer, after, fromSecond⟩ := second midway
      refine ⟨newer ++ new, by simpa using after, fun e member => ?_⟩
      rcases List.mem_append.mp member with left | right
      · obtain ⟨kind, d, exported, declared⟩ := fromSecond e left
        exact ⟨kind, d, List.mem_append_right _ exported, declared⟩
      · obtain ⟨kind, d, exported, declared⟩ := fromFirst e right
        exact ⟨kind, d, List.mem_append_left _ exported, declared⟩
  | scope p ih =>
      obtain ⟨new, after, -⟩ := ih (s := s.inside) rfl
      exact ⟨[], by simp [after, opened], by simp⟩

/-- A plan that exports nothing leaves the frames alone. -/
theorem run_closed {f : Frame} {fs : List Frame} (opened : s.frames = f :: fs)
    (closed : p.exports = []) : (p.run s).2.frames = s.frames := by
  obtain ⟨new, after, fromExports⟩ := run_frames p opened
  cases new with
  | nil => rwa [opened]
  | cons e new =>
      obtain ⟨kind, d, exported, -⟩ := fromExports e List.mem_cons_self
      rw [closed] at exported
      cases exported

end Plan

/-! ### Where objects are declared -/

/-- Whether every object of the open scopes is declared by one of some identifiers, and has a name. -/
def State.Backed (ds : List Ident) (s : State) : Prop :=
  ∀ f ∈ s.frames, ∀ e ∈ f, e.1 ≠ blank ∧ ∃ d ∈ ds, d.Declares e

theorem State.Backed.mono {ds ds' : List Ident} {s : State} (backed : s.Backed ds) (more : ds ⊆ ds') :
    s.Backed ds' := by
  intro f inFrames e inFrame
  obtain ⟨named, d, known, declares⟩ := backed f inFrames e inFrame
  exact ⟨named, d, more known, declares⟩

theorem State.Backed.declare {ds : List Ident} {s : State} (backed : s.Backed ds) (kind : ObjKind)
    (i : Ident) : (s.declare kind i).Backed (ds ++ [i.bind (i.object kind)]) := by
  have before := backed.mono (List.subset_append_left ds [i.bind (i.object kind)])
  cases opened : s.frames with
  | nil =>
      have same : s.declare kind i = s := by
        unfold State.declare State.insert
        rw [opened]
        exact ite_self s
      rwa [same]
  | cons f fs =>
      intro g inFrames e inFrame
      rw [State.frames_declare opened] at inFrames
      rcases List.mem_cons.mp inFrames with rfl | outer
      · split at inFrame
        · exact before f (by simp [opened]) e inFrame
        · next named =>
            rcases List.mem_cons.mp inFrame with rfl | old
            · exact ⟨named, i.bind (i.object kind), by simp, rfl, rfl, rfl, rfl⟩
            · exact before f (by simp [opened]) e old
      · exact before g (by simp [opened, outer]) e inFrame

namespace Plan

variable {p : Plan} {s : State}

/-- What a fresh plan binds an identifier to is declared under its name, by an identifier from before
or by one of the plan. A blank name stands for itself only. -/
theorem run_backed (fresh : p.Fresh) {ds : List Ident} (backed : s.Backed ds) :
    (p.run s).2.Backed (ds ++ (p.run s).1.idents) ∧
      ∀ j ∈ (p.run s).1.idents, ∀ o, j.obj = some o →
        ∃ d ∈ ds ++ (p.run s).1.idents, d.Declares (j.name, o) ∧ (j.name = blank → d = j) := by
  induction p generalizing s ds with
  | stop => exact ⟨by simpa using backed, by simp⟩
  | visit r i =>
      have unbound : i.obj = none := fresh i (by simp)
      simp only [run_visit, idents_visit, List.mem_singleton, forall_eq]
      refine r.walk_cases i s ?_ ?_ ?_ ?_
      · intro o sees
        refine ⟨backed.mono (List.subset_append_left _ _), ?_⟩
        rintro o' ⟨⟩
        obtain ⟨f, inFrames, here⟩ := Role.mem_of_sees sees
        obtain ⟨named, d, known, declares⟩ := backed f inFrames _ here
        exact ⟨d, List.mem_append_left _ known, declares, fun noName => absurd noName named⟩
      · intro kind unseen declares
        refine ⟨backed.declare kind i, ?_⟩
        rintro o ⟨⟩
        exact ⟨i.bind (i.object kind), by simp, ⟨rfl, rfl, rfl, rfl⟩, fun _ => rfl⟩
      · exact fun _ _ _ => ⟨backed.mono (List.subset_append_left _ _), by simp [unbound]⟩
      · exact fun _ _ _ => ⟨backed.mono (List.subset_append_left _ _), by simp [unbound]⟩
  | both p q first second =>
      obtain ⟨freshLeft, freshRight⟩ := (fresh_both p q).mp fresh
      obtain ⟨midway, boundLeft⟩ := first freshLeft backed
      obtain ⟨after, boundRight⟩ := second freshRight midway
      rw [List.append_assoc] at after boundRight
      simp only [run_both, idents_both]
      refine ⟨after, fun j member o bound => ?_⟩
      rcases List.mem_append.mp member with left | right
      · obtain ⟨d, known, declares⟩ := boundLeft j left o bound
        have more := List.mem_append_left (q.run (p.run s).2).1.idents known
        rw [List.append_assoc] at more
        exact ⟨d, more, declares⟩
      · exact boundRight j right o bound
  | scope p ih =>
      have inside : s.inside.Backed ds := by
        intro f inFrames
        rcases List.mem_cons.mp inFrames with rfl | outer
        · simp
        · exact backed f outer
      obtain ⟨after, bound⟩ := ih fresh inside
      exact ⟨fun f inFrames => after f (List.mem_of_mem_tail inFrames), bound⟩

/-! ### Declarations before uses -/

/-- Whether what a plan exports stands before what it comes to later. -/
def Ordered : Plan → Prop
  | .stop => True
  | .visit _ _ => True
  | .both p q => p.Ordered ∧ q.Ordered ∧ ∀ d ∈ p.exports, ∀ i ∈ q.idents, d.namePos.raw ≤ i.namePos.raw
  | .scope p => p.Ordered

/-- What an ordered plan binds an identifier to is declared no later than there, unless it is one of
the old objects in the scopes from before. -/
theorem run_ordered (old : Object → Prop) (fresh : p.Fresh) (ordered : p.Ordered)
    (opened : s.frames ≠ []) (before : ∀ f ∈ s.frames, ∀ e ∈ f,
      old e.2 ∨ ∀ i ∈ p.idents, e.2.decl.raw ≤ i.namePos.raw) :
    ∀ j ∈ (p.run s).1.idents, ∀ o, j.obj = some o → old o ∨ o.decl.raw ≤ j.namePos.raw := by
  induction p generalizing s with
  | stop => simp
  | visit r i =>
      have unbound : i.obj = none := fresh i (by simp)
      simp only [run_visit, idents_visit, List.mem_singleton, forall_eq]
      refine r.walk_cases i s ?_ ?_ ?_ ?_
      · rintro o sees o' ⟨⟩
        obtain ⟨f, inFrames, here⟩ := Role.mem_of_sees sees
        exact (before f inFrames _ here).imp_right fun places => places i (by simp)
      · rintro kind unseen declares o ⟨⟩
        exact .inr (Nat.le_refl _)
      · exact fun _ _ _ => by simp [unbound]
      · exact fun _ _ _ => by simp [unbound]
  | both p q first second =>
      obtain ⟨freshLeft, freshRight⟩ := (fresh_both p q).mp fresh
      obtain ⟨orderedLeft, orderedRight, across⟩ := ordered
      obtain ⟨f, fs, split⟩ := List.exists_cons_of_ne_nil opened
      obtain ⟨new, midway, fromExports⟩ := run_frames p split
      simp only [run_both, idents_both]
      intro j member
      rcases List.mem_append.mp member with left | right
      · refine first freshLeft orderedLeft opened (fun f inFrames e inFrame => ?_) j left
        exact (before f inFrames e inFrame).imp_right fun places i inLeft => places i (by simp [inLeft])
      · refine second freshRight orderedRight (by simp [midway]) (fun g inFrames e inFrame => ?_) j right
        have early (known : ∃ g ∈ s.frames, e ∈ g) :
            old e.2 ∨ ∀ i ∈ q.idents, e.2.decl.raw ≤ i.namePos.raw := by
          obtain ⟨g, inFrames, inFrame⟩ := known
          exact (before g inFrames e inFrame).imp_right fun places i inRight =>
            places i (by simp [inRight])
        rw [midway] at inFrames
        rcases List.mem_cons.mp inFrames with rfl | outer
        · rcases List.mem_append.mp inFrame with isNew | isOld
          · obtain ⟨kind, d, exported, -, rfl⟩ := fromExports e isNew
            exact .inr fun i inRight => across d exported i inRight
          · exact early ⟨f, by simp [split], isOld⟩
        · exact early ⟨g, by simp [split, outer], inFrame⟩
  | scope p ih =>
      refine ih fresh ordered (by simp) fun f inFrames => ?_
      rcases List.mem_cons.mp inFrames with rfl | outer
      · simp
      · exact before f outer

end Plan

/-! ### Scopes that show the same -/

/-- Whether two states show the same objects under some names, frame by frame. -/
def State.Agrees (P : String → Prop) (s t : State) : Prop :=
  List.Forall₂ (fun f g => ∀ name, P name → f.find? name = g.find? name) s.frames t.frames

section

variable {P : String → Prop} {s t : State}

theorem State.Agrees.refl (P : String → Prop) (s : State) : s.Agrees P s :=
  List.forall₂_same.mpr fun _ _ _ _ => rfl

theorem State.Agrees.symm (agrees : s.Agrees P t) : t.Agrees P s :=
  agrees.flip.imp fun _ _ same name known => (same name known).symm

theorem State.Agrees.inside (agrees : s.Agrees P t) : s.inside.Agrees P t.inside :=
  .cons (fun _ _ => rfl) agrees

theorem State.Agrees.outside (agrees : s.Agrees P t) : s.outside.Agrees P t.outside := by
  unfold State.Agrees at *
  rw [State.frames_outside, State.frames_outside]
  generalize s.frames = fs at *
  generalize t.frames = gs at *
  cases agrees with
  | nil => exact .nil
  | cons _ outer => exact outer

theorem State.Agrees.lookup?_eq (agrees : s.Agrees P t) {name : String} (known : P name) :
    s.lookup? name = t.lookup? name := by
  unfold State.Agrees at agrees
  unfold State.lookup?
  generalize s.frames = fs at *
  generalize t.frames = gs at *
  induction agrees with
  | nil => rfl
  | cons same _ ih => rw [List.findSome?_cons, List.findSome?_cons, same name known, ih]

theorem State.Agrees.local?_eq (agrees : s.Agrees P t) {name : String} (known : P name) :
    s.local? name = t.local? name := by
  unfold State.Agrees at agrees
  unfold State.local?
  generalize s.frames = fs at *
  generalize t.frames = gs at *
  cases agrees with
  | nil => rfl
  | cons same _ => exact same name known

theorem State.Agrees.sees?_eq (agrees : s.Agrees P t) (r : Role) {name : String} (known : P name) :
    r.sees? s name = r.sees? t name := by
  cases r <;> simp [Role.sees?, agrees.lookup?_eq known, agrees.local?_eq known]

theorem Frame.find?_cons (name : String) (o : Object) (f : Frame) :
    Frame.find? ((name, o) :: f) = fun n => if name == n then some o else f.find? n := by
  funext n
  by_cases same : name == n <;> simp [Frame.find?, same]

theorem State.Agrees.declare (agrees : s.Agrees P t) (kind : ObjKind) (i : Ident) :
    (s.declare kind i).Agrees P (t.declare kind i) := by
  unfold State.declare
  split
  · exact agrees
  · unfold State.Agrees State.insert at *
    cases left : s.frames <;> cases right : t.frames <;> rw [left, right] at agrees
    · simp [left, right]
    · cases agrees
    · cases agrees
    · obtain ⟨same, outer⟩ := List.forall₂_cons.mp agrees
      refine .cons (fun name known => ?_) outer
      simp only [Frame.find?_cons, same name known]

/-- A declaration of another name on one side is not seen. -/
theorem State.Agrees.declare_left (agrees : s.Agrees P t) (kind : ObjKind) {i : Ident}
    (unknown : ¬ P i.name) : (s.declare kind i).Agrees P t := by
  unfold State.declare
  split
  · exact agrees
  · unfold State.Agrees State.insert at *
    cases left : s.frames with
    | nil => rwa [left] at agrees ⊢
    | cons f fs =>
        rw [left] at agrees
        cases right : t.frames <;> rw [right] at agrees
        · cases agrees
        · obtain ⟨same, outer⟩ := List.forall₂_cons.mp agrees
          refine .cons (fun name known => ?_) outer
          have other : i.name ≠ name := fun same => unknown (same ▸ known)
          simp only [Frame.find?_cons, beq_eq_false_iff_ne.mpr other, Bool.false_eq_true, if_false,
            same name known]

/-- An identifier with a name under which the states show the same is bound in the same way. -/
theorem State.Agrees.walk (agrees : s.Agrees P t) (r : Role) {i : Ident} (known : P i.name) :
    (r.walk i s).1 = (r.walk i t).1 ∧ (r.walk i s).2.Agrees P (r.walk i t).2 ∧
      ∃ noted ⊆ [(r.walk i s).1], (r.walk i s).2.unresolved.toList = s.unresolved.toList ++ noted ∧
        (r.walk i t).2.unresolved.toList = t.unresolved.toList ++ noted := by
  have same := agrees.sees?_eq r known
  refine r.walk_cases i s ?_ ?_ ?_ ?_
  · intro o sees
    rw [Role.walk_of_sees (same ▸ sees)]
    exact ⟨rfl, agrees, [], by simp⟩
  · intro kind unseen declares
    rw [Role.walk_of_kind (same ▸ unseen) declares]
    exact ⟨rfl, agrees.declare kind i, [], by simp⟩
  · rintro rfl named unseen
    rw [Role.walk_of_missed (same ▸ unseen) named]
    exact ⟨rfl, agrees, [i], by simp [State.note]⟩
  · intro unseen idle left
    rw [Role.walk_of_left (same ▸ unseen) idle left]
    exact ⟨rfl, agrees, [], by simp⟩

end

/-- **What a plan binds depends on the objects that the scopes show and on nothing else.** -/
theorem Plan.run_agree (p : Plan) {s t : State} (agrees : s.Agrees (fun _ => True) t) :
    (p.run s).1 = (p.run t).1 ∧ (p.run s).2.Agrees (fun _ => True) (p.run t).2 ∧
      ∃ noted ⊆ (p.run s).1.idents, (p.run s).2.unresolved.toList = s.unresolved.toList ++ noted ∧
        (p.run t).2.unresolved.toList = t.unresolved.toList ++ noted := by
  induction p generalizing s t with
  | stop => exact ⟨rfl, agrees, [], by simp⟩
  | visit r i =>
      obtain ⟨same, after, noted⟩ := agrees.walk r (i := i) trivial
      exact ⟨congrArg (Plan.visit r) same, after, noted⟩
  | both p q first second =>
      obtain ⟨sameLeft, midway, notedLeft, insideLeft, leftS, leftT⟩ := first agrees
      obtain ⟨sameRight, after, notedRight, insideRight, rightS, rightT⟩ := second midway
      refine ⟨by simp [sameLeft, sameRight], after, notedLeft ++ notedRight, ?_, ?_, ?_⟩
      · rw [run_both, idents_both]
        exact List.append_subset.mpr ⟨List.Subset.trans insideLeft (List.subset_append_left _ _),
          List.Subset.trans insideRight (List.subset_append_right _ _)⟩
      · simp [rightS, leftS]
      · simp [rightT, leftT]
  | scope p ih =>
      obtain ⟨same, after, noted, within, left, right⟩ := ih agrees.inside
      exact ⟨congrArg Plan.scope same, after.outside, noted, within, left, right⟩

end Scope

end GoFront
