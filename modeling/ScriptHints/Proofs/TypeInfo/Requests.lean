import ScriptHints.Proofs.TypeInfo.ByteOrder
import ScriptHints.TypeInfo.Registry

/-!
# What a registry holds

A registry takes requests one after another: a declaration, a JSON text, or a file with a JSON
text. How such a text is read is a parameter. A request that fails changes nothing, so for
each name a registry holds the last declaration that a successful request supplied.
-/

namespace ScriptHints
namespace TypeInfo

open Json

inductive Origin where
  | empty | standard
deriving DecidableEq, Repr

def Origin.registry : Origin → Registry
  | .empty => .empty
  | .standard => .standard

def Origin.content : Origin → List TypeDeclaration
  | .empty => []
  | .standard => Registry.builtins

inductive Request (α : Type) where
  | declaration (d : TypeDeclaration)
  | json (input : α)
  /-- A file, with its text or the reason why it cannot be opened. -/
  | file (path : String) (opened : Except String α)

section

variable {α : Type} (read : α → Except JsonFault (List TypeDeclaration))

namespace Request

def update : Request α → Update Nat
  | declaration d => do Update.register d; return 1
  | json input => Update.extend read input
  | file path opened => Update.load read path opened

def declarations : Request α → Except RegistryError (List TypeDeclaration)
  | declaration d => .ok [d]
  | json input => (read input).mapError .invalid
  | file path (.error reason) => .error (.unreadable path reason)
  | file _ (.ok input) => (read input).mapError .invalid

def supplied (q : Request α) (r : Registry) : List TypeDeclaration :=
  match (q.update read).run r with
  | .ok _ _ => (q.declarations read).toOption.getD []
  | .error _ _ => []

end Request

namespace Registry

def after (r : Registry) : List (Request α) → Registry
  | [] => r
  | q :: qs => after ((q.update read).left r) qs

def supplies (r : Registry) : List (Request α) → List TypeDeclaration
  | [] => []
  | q :: qs => q.supplied read r ++ supplies ((q.update read).left r) qs

end Registry

end

/-!
## Lists of declarations
-/

def LastNamed (ds : List TypeDeclaration) (name : String) (d : TypeDeclaration) : Prop :=
  d.name = name ∧ exists before behind, ds = before ++ d :: behind ∧
    forall later, later ∈ behind -> later.name ≠ name

theorem not_lastNamed_nil (name : String) (d : TypeDeclaration) : ¬ LastNamed [] name d := by
  rintro ⟨_, before, behind, hnil, _⟩
  exact absurd hnil.symm (List.append_ne_nil_of_right_ne_nil _ (List.cons_ne_nil _ _))

/-- A declaration at the end hides those of its name and no others. -/
theorem lastNamed_concat_iff (ds : List TypeDeclaration) (added : TypeDeclaration) (name : String)
    (d : TypeDeclaration) :
    LastNamed (ds ++ [added]) name d ↔
      if added.name = name then added = d else LastNamed ds name d := by
  split
  · rename_i hname
    constructor
    · rintro ⟨_, before, behind, heq, hbehind⟩
      rcases List.eq_nil_or_concat' behind with rfl | ⟨behind, last, rfl⟩
      · exact (List.cons.inj (List.append_inj_right' heq rfl)).1
      · rw [← List.cons_append, ← List.append_assoc] at heq
        have hlast : added = last := (List.cons.inj (List.append_inj_right' heq rfl)).1
        exact absurd (hlast ▸ hname)
          (hbehind last (List.mem_append_right _ (List.mem_singleton_self _)))
    · rintro rfl
      exact ⟨hname, ds, [], rfl, fun _ hnil => absurd hnil List.not_mem_nil⟩
  · rename_i hname
    constructor
    · rintro ⟨hd, before, behind, heq, hbehind⟩
      rcases List.eq_nil_or_concat' behind with rfl | ⟨behind, last, rfl⟩
      · have hadded : added = d := (List.cons.inj (List.append_inj_right' heq rfl)).1
        exact absurd (hadded ▸ hd) hname
      · rw [← List.cons_append, ← List.append_assoc] at heq
        exact ⟨hd, before, behind, List.append_inj_left' heq rfl,
          fun later hlater => hbehind later (List.mem_append_left _ hlater)⟩
    · rintro ⟨hd, before, behind, rfl, hbehind⟩
      refine ⟨hd, before, behind ++ [added], by rw [List.append_assoc, List.cons_append], ?_⟩
      intro later hlater
      rcases List.mem_append.mp hlater with hlater | hlater
      · exact hbehind later hlater
      · rwa [List.mem_singleton.mp hlater]

/-!
## Updates
-/

namespace Update

theorem insertAll_run (ds : List TypeDeclaration) (r : Registry) :
    (insertAll ds).run r = .ok () (ds.foldl Registry.insert r) := by
  induction ds generalizing r with
  | nil => rfl
  | cons d ds ih => exact ih (r.insert d)

/-- All declarations are registered, or none is and the registry stays as it was. -/
theorem extend_run (read : α → Except JsonFault (List TypeDeclaration)) (input : α)
    (r : Registry) :
    (extend read input).run r =
      match read input with
      | .error fault => .error (.invalid fault) r
      | .ok ds =>
          if ds.any (·.isNameless) then .error .emptyName r
          else .ok ds.length (ds.foldl Registry.insert r) := by
  unfold extend
  cases read input with
  | error fault => rfl
  | ok ds =>
      dsimp only
      split
      · rfl
      · show EStateM.bind (insertAll ds) _ r = _
        unfold EStateM.bind
        rw [show insertAll ds r = _ from insertAll_run ds r]
        rfl

theorem register_run (d : TypeDeclaration) (r : Registry) :
    (register d).run r =
      if d.isNameless then .error .emptyName r else .ok () (r.insert d) := by
  unfold register
  split <;> rfl

end Update

/-- A request registers what it declares, unless that cannot be read or a name is missing. -/
theorem Request.update_run (read : α → Except JsonFault (List TypeDeclaration)) (q : Request α)
    (r : Registry) :
    (q.update read).run r =
      match q.declarations read with
      | .error e => .error e r
      | .ok ds =>
          if ds.any (·.isNameless) then .error .emptyName r
          else .ok ds.length (ds.foldl Registry.insert r) := by
  cases q with
  | declaration d =>
      show EStateM.bind (Update.register d) _ r = _
      unfold EStateM.bind
      rw [show Update.register d r = _ from Update.register_run d r]
      show _ = if [d].any (·.isNameless) then _ else _
      rw [List.any_cons, List.any_nil, Bool.or_false]
      cases d.isNameless <;> rfl
  | json input =>
      rw [update, declarations, Update.extend_run]
      cases read input <;> rfl
  | file path opened =>
      cases opened with
      | error reason => rfl
      | ok input =>
          rw [update, declarations, Update.load, Update.extend_run]
          cases read input <;> rfl

/-!
## Records
-/

structure Registry.Records (r : Registry) (ds : List TypeDeclaration) : Prop where
  lookup : forall name d, r.lookup name = some d ↔ LastNamed ds name d
  named : forall d, d ∈ ds -> d.isNameless = false

namespace Registry

theorem records_empty : empty.Records [] where
  lookup name d := by
    rw [lookup_empty]
    exact iff_of_false (fun h => Option.some_ne_none d h.symm) (not_lastNamed_nil name d)
  named d hd := absurd hd List.not_mem_nil

namespace Records

variable {r : Registry} {ds : List TypeDeclaration}

theorem insert (h : r.Records ds) {d : TypeDeclaration} (hname : d.isNameless = false) :
    (r.insert d).Records (ds ++ [d]) where
  lookup name other := by
    rw [lookup_insert, lastNamed_concat_iff]
    split
    · exact Option.some_inj
    · exact h.lookup name other
  named other hother := by
    rcases List.mem_append.mp hother with hold | hnew
    · exact h.named other hold
    · rwa [List.mem_singleton.mp hnew]

theorem insertAll (h : r.Records ds) {more : List TypeDeclaration}
    (hnames : forall d, d ∈ more -> d.isNameless = false) :
    (more.foldl Registry.insert r).Records (ds ++ more) := by
  induction more generalizing r ds with
  | nil =>
      rw [List.append_nil]
      exact h
  | cons d more ih =>
      have hnext := ih (h.insert (hnames d List.mem_cons_self)) fun other hother =>
        hnames other (List.mem_cons_of_mem d hother)
      rw [List.append_assoc] at hnext
      exact hnext

theorem update (read : α → Except JsonFault (List TypeDeclaration)) (h : r.Records ds)
    (q : Request α) :
    ((q.update read).left r).Records (ds ++ q.supplied read r) := by
  unfold Update.left Request.supplied
  rw [q.update_run read r]
  cases hread : q.declarations read with
  | error e => rwa [List.append_nil]
  | ok more =>
      dsimp only
      by_cases hnames : more.any (·.isNameless) = true
      · rw [if_pos hnames, List.append_nil]
        exact h
      · rw [if_neg hnames]
        refine h.insertAll fun d hd => ?_
        rw [Bool.not_eq_true, List.any_eq_false] at hnames
        exact Bool.eq_false_iff.mpr (hnames d hd)

theorem after (read : α → Except JsonFault (List TypeDeclaration)) (h : r.Records ds)
    (qs : List (Request α)) :
    (r.after read qs).Records (ds ++ r.supplies read qs) := by
  induction qs generalizing r ds with
  | nil =>
      rw [Registry.supplies, List.append_nil]
      exact h
  | cons q qs ih =>
      rw [Registry.supplies, ← List.append_assoc]
      exact ih (h.update read q)

theorem exists_solid (h : r.Records ds) {name : String} (hname : (r.lookup name).isSome = true) :
    exists c, c ∈ name.toList ∧ Text.isWhiteSpace c = false := by
  rcases Option.isSome_iff_exists.mp hname with ⟨d, hd⟩
  rcases (h.lookup name d).mp hd with ⟨rfl, before, behind, rfl, _⟩
  have hnamed := h.named d (List.mem_append_right _ List.mem_cons_self)
  unfold TypeDeclaration.isNameless Text.isBlankText at hnamed
  rcases List.all_eq_false.mp hnamed with ⟨c, hc, hsolid⟩
  exact ⟨c, hc, Bool.eq_false_iff.mpr hsolid⟩

end Records

theorem Origin.records (origin : Origin) : origin.registry.Records origin.content := by
  cases origin with
  | empty => exact records_empty
  | standard => exact records_empty.insertAll (by decide +kernel)

theorem pairwise_names (r : Registry) :
    r.names.Pairwise fun a b => Text.utf8Bytes a < Text.utf8Bytes b := by
  refine r.declarations.ordered_keys.imp fun h => ?_
  exact Text.utf8Bytes_lt (compareOfLessAndEq_eq_lt.mp h)

theorem length_names (r : Registry) : r.names.length = r.size :=
  Std.TreeMap.length_keys

end Registry

/-- A registry holds the last declaration for each name that it began with or that a successful
request supplied since, and a request that fails changes nothing. -/
theorem registry_after_requests (read : α → Except JsonFault (List TypeDeclaration))
    (origin : Origin) (qs : List (Request α)) :
    let r := origin.registry.after read qs
    (forall name d, r.lookup name = some d ↔
      LastNamed (origin.content ++ origin.registry.supplies read qs) name d) ∧
    (forall name, r.contains name = (r.lookup name).isSome) ∧
    (forall name, name ∈ r.names ↔ (r.lookup name).isSome = true) ∧
    r.names.Pairwise (fun a b => Text.utf8Bytes a < Text.utf8Bytes b) ∧
    r.names.length = r.size ∧
    (forall name, name ∈ r.names -> exists c, c ∈ name.toList ∧ Text.isWhiteSpace c = false) ∧
    forall q : Request α,
      match (q.update read).run r with
      | .ok count _ =>
          exists ds, q.declarations read = .ok ds ∧ count = ds.length ∧
            forall d, d ∈ ds -> d.isNameless = false
      | .error e left =>
          (forall name, left.lookup name = r.lookup name) ∧
            (q.declarations read = .error e ∨
              exists ds d, q.declarations read = .ok ds ∧ d ∈ ds ∧ d.isNameless = true ∧
                e = .emptyName) := by
  intro r
  have hrecords := (Registry.Origin.records origin).after read qs
  have hnames (name : String) : name ∈ r.names ↔ (r.lookup name).isSome = true := by
    rw [r.mem_names_iff, r.contains_eq_isSome_lookup]
  refine ⟨hrecords.lookup, r.contains_eq_isSome_lookup, hnames, r.pairwise_names, r.length_names,
    fun name hname => hrecords.exists_solid ((hnames name).mp hname), fun q => ?_⟩
  rw [q.update_run read r]
  cases hread : q.declarations read with
  | error e => exact ⟨fun _ => rfl, .inl rfl⟩
  | ok ds =>
      dsimp only
      by_cases hblank : ds.any (·.isNameless) = true
      · rw [if_pos hblank]
        rcases List.any_eq_true.mp hblank with ⟨d, hd, hnameless⟩
        exact ⟨fun _ => rfl, .inr ⟨ds, d, rfl, hd, hnameless, rfl⟩⟩
      · rw [if_neg hblank]
        rw [Bool.not_eq_true, List.any_eq_false] at hblank
        exact ⟨ds, rfl, rfl, fun d hd => Bool.eq_false_iff.mpr (hblank d hd)⟩

end TypeInfo
end ScriptHints
