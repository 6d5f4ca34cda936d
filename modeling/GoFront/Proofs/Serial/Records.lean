import GoFront.Tree.Positions
import GoFront.Tree.Reading
import Mathlib.Data.List.Nodup

/-!
The records, lists and leaves of trees read back from their JSON form.

A record is written with its keys in order, and read by looking each one up; what is read is in order
what was written (`record?_obj`). Every type below the nodes round trips (`RoundTrips`): what its form
is read as is the value, if its positions fit into 32 bits.
-/

namespace GoFront

/-! ### Records, lists and options -/

namespace Json

/-- The key of a field. -/
def FieldName.key : FieldName → String
  | .must key => key
  | .may key => key

theorem member?_eq {members : List (String × Json)} (distinct : (members.map (·.1)).Nodup)
    {m : String × Json} (member : m ∈ members) : member? members m.1 = some m.2 := by
  induction members with
  | nil => cases member
  | cons k ms ih =>
    obtain ⟨first, rest⟩ := List.nodup_cons.mp distinct
    rcases List.mem_cons.mp member with rfl | later
    · simp [member?]
    · have other : k.1 ≠ m.1 := fun same => first (List.mem_map.mpr ⟨m, later, same.symm⟩)
      simpa [member?, other] using ih rest later

theorem field?_eq {members : List (String × Json)} (distinct : (members.map (·.1)).Nodup)
    {m : String × Json} (member : m ∈ members) {f : FieldName} (key : m.1 = f.key) :
    field? members f = some m.2 := by
  have found := member?_eq distinct member
  rw [key] at found
  cases f with
  | must k => exact found
  | may k =>
    rw [FieldName.key] at found
    rw [field?, found, Option.getD_some]

/-- **An object with the fields of a record is read as their values**, in order. -/
theorem record?_obj {fields : List FieldName} {members : List (String × Json)}
    (keys : members.map (·.1) = fields.map FieldName.key)
    (distinct : (fields.map FieldName.key).Nodup) :
    record? fields (.obj members) = some (members.map (·.2)) := by
  have values {ms : List (String × Json)} {fs : List FieldName} (inside : ms ⊆ members)
      (same : ms.map (·.1) = fs.map FieldName.key) :
      fs.mapM (field? members) = some (ms.map (·.2)) := by
    induction ms generalizing fs with
    | nil =>
      obtain rfl : fs = [] := by simpa using same.symm
      rfl
    | cons m ms ih =>
      cases fs with
      | nil => cases same
      | cons f fs =>
        obtain ⟨key, rest⟩ := List.cons.inj same
        have here := field?_eq (keys ▸ distinct) (inside List.mem_cons_self) key
        simp [here, ih (List.subset_of_cons_subset inside) rest]
  exact values (List.Subset.refl _) keys

variable {α : Type} {f : α → Json} {g : Json → Option α}

theorem list?_list {as : List α} (each : ∀ a ∈ as, g (f a) = some a) :
    list? g (list f as) = some as := by
  induction as with
  | nil => rfl
  | cons a as ih =>
    obtain ⟨first, rest⟩ := List.forall_mem_cons.mp each
    have tail : (as.map f).mapM g = some as := ih rest
    simp [list, list?, first, tail]

/-- What is not null is an optional value that is there. -/
theorem option?_some {j : Json} {a : α} (solid : j ≠ .null) (read : g j = some a) :
    option? g j = some (some a) := by
  cases j with
  | null => exact absurd rfl solid
  | _ => simp [option?, read]

/-- A record is not taken for a missing value. -/
theorem obj_ne_null {fields : List (String × Json)} : Json.obj fields ≠ .null :=
  fun same => Json.noConfusion same

theorem option?_option {a : Option α} (solid : ∀ a, f a ≠ .null) (each : ∀ b ∈ a, g (f b) = some b) :
    option? g (option f a) = some a := by
  cases a with
  | none => rfl
  | some b => exact option?_some (solid b) (each b rfl)

end Json

/-! ### Steps of a reader -/

namespace Json

/-- What a reader does after a value that it reads. -/
theorem andThen {α β : Type} {o : Option α} {a : α} {f : α → Option β} {b : Option β}
    (read : o = some a) (rest : f a = b) : (o >>= f) = b := by
  rw [read]
  exact rest

/-- What a reader does with the fields of a record. -/
theorem ofRecord {β : Type} {fields : List FieldName} {members : List (String × Json)}
    {f : List Json → Option β} {b : Option β}
    (keys : members.map (·.1) = fields.map FieldName.key)
    (distinct : (fields.map FieldName.key).Nodup) (rest : f (members.map (·.2)) = b) :
    (record? fields (.obj members) >>= f) = b :=
  andThen (record?_obj keys distinct) rest

end Json

/-! ### Round trips -/

/-- Whether positions fit into 32 bits. -/
def Fit (ps : List Pos) : Prop := ∀ p ∈ ps, p.raw < UInt32.size

instance (ps : List Pos) : Decidable (Fit ps) :=
  inferInstanceAs (Decidable (∀ p ∈ ps, p.raw < UInt32.size))

@[simp] theorem fit_nil : Fit [] := nofun

@[simp] theorem fit_cons {p : Pos} {ps : List Pos} : Fit (p :: ps) ↔ p.raw < UInt32.size ∧ Fit ps :=
  List.forall_mem_cons

@[simp] theorem fit_append {ps qs : List Pos} : Fit (ps ++ qs) ↔ Fit ps ∧ Fit qs :=
  List.forall_mem_append

/-- Whether the values of a type are read back from their JSON form. -/
def RoundTrips (α : Type) [HasPositions α] [Serial α] [Deserial α] : Prop :=
  ∀ a : α, Fit (positions a) → ofJson? (toJson a) = some a

section Parts

variable {α : Type} [HasPositions α] [Serial α] [Deserial α]

theorem RoundTrips.list (each : RoundTrips α) {as : List α} (fits : Fit (positions as)) :
    Json.list? ofJson? (Json.list toJson as) = some as :=
  Json.list?_list fun a member =>
    each a fun p inside => fits p (List.mem_flatMap.mpr ⟨a, member, inside⟩)

theorem RoundTrips.option (each : RoundTrips α) (solid : ∀ a : α, toJson a ≠ .null) {a : Option α}
    (fits : Fit (positions a)) : Json.option? ofJson? (Json.option toJson a) = some a := by
  refine Json.option?_option solid fun b there => each b ?_
  obtain rfl : a = some b := there
  exact fits

end Parts

/-! ### Leaves -/

open Json

theorem Pos.ofJson?_toJson {p : Pos} (fits : p.raw < UInt32.size) : ofJson? (toJson p) = some p :=
  if_pos fits

theorem Pos.roundTrips : RoundTrips Pos := fun _ fits => Pos.ofJson?_toJson (fit_cons.mp fits).1

/-- A line table keeps offsets of any size. -/
theorem LineTable.ofJson?_toJson (t : LineTable) : ofJson? (toJson t) = some t := by
  have starts : list? nat? (list nat t.starts.toList) = some t.starts.toList :=
    list?_list fun _ _ => rfl
  exact ofRecord rfl (by decide) <| andThen starts rfl

theorem Token.Kind.ofJson?_toJson (kind : Token.Kind) : ofJson? (toJson kind) = some kind :=
  Token.Kind.ofName?_name kind

theorem ObjKind.ofJson?_toJson (kind : ObjKind) : ofJson? (toJson kind) = some kind := by
  cases kind <;> decide

theorem LitKind.ofJson?_toJson (kind : LitKind) : ofJson? (toJson kind) = some kind := by
  cases kind <;> decide

theorem ChanDir.ofJson?_toJson (dir : ChanDir) : ofJson? (toJson dir) = some dir := by
  cases dir <;> decide

theorem Comment.roundTrips : RoundTrips Comment := fun c fits =>
  ofRecord rfl (by decide) <| andThen (Pos.roundTrips c.slash fits) <| andThen rfl rfl

theorem CommentGroup.roundTrips : RoundTrips CommentGroup := fun _ fits =>
  ofRecord rfl (by decide) <| andThen (Comment.roundTrips.list fits) rfl

theorem Object.roundTrips : RoundTrips Object := fun o fits =>
  ofRecord rfl (by decide) <| andThen o.kind.ofJson?_toJson <| andThen rfl <|
    andThen (Pos.roundTrips o.decl fits) rfl

theorem Ident.roundTrips : RoundTrips Ident := by
  intro i fits
  obtain ⟨pos, obj⟩ := fit_cons.mp fits
  exact ofRecord rfl (by decide) <| andThen (Pos.ofJson?_toJson pos) <| andThen rfl <|
    andThen (Object.roundTrips.option (fun _ => obj_ne_null) obj) rfl

theorem BasicLit.roundTrips : RoundTrips BasicLit := fun l fits =>
  ofRecord rfl (by decide) <|
    andThen (Pos.roundTrips l.valuePos fits) <| andThen l.kind.ofJson?_toJson <|
    andThen rfl rfl

theorem ImportSpec.roundTrips : RoundTrips (ImportSpec Ident) := by
  intro s fits
  obtain ⟨rest, comment⟩ := fit_append.mp fits
  obtain ⟨rest, path⟩ := fit_append.mp rest
  obtain ⟨doc, name⟩ := fit_append.mp rest
  exact ofRecord rfl (by decide) <|
    andThen (CommentGroup.roundTrips.option (fun _ => obj_ne_null) doc) <|
    andThen (Ident.roundTrips.option (fun _ => obj_ne_null) name) <|
    andThen (BasicLit.roundTrips s.path path) <|
    andThen (CommentGroup.roundTrips.option (fun _ => obj_ne_null) comment) rfl

end GoFront
