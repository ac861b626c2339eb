import ScriptHints.Proofs.Json.Compact
import ScriptHints.Proofs.TypeInfo.Requests
import ScriptHints.Proofs.TypeInfo.Spelled

/-!
# Registries that are written and read again

The declarations of a registry have different names, none of which is blank. So an empty registry
takes all of them from a text that spells them, and then it has the same declaration for each name.
-/

namespace ScriptHints
namespace TypeInfo

open Json

namespace Registry

def listed (r : Registry) : List TypeDeclaration :=
  r.names.filterMap r.lookup

variable {r : Registry} {ds : List TypeDeclaration}

theorem Records.name_eq (h : r.Records ds) {name : String} {d : TypeDeclaration}
    (hd : r.lookup name = some d) : d.name = name :=
  ((h.lookup name d).mp hd).1

theorem Records.mem_listed_iff (h : r.Records ds) (d : TypeDeclaration) :
    d ∈ r.listed ↔ r.lookup d.name = some d := by
  unfold listed
  rw [List.mem_filterMap]
  constructor
  · rintro ⟨name, _, hd⟩
    rw [h.name_eq hd]
    exact hd
  · intro hd
    refine ⟨d.name, ?_, hd⟩
    rw [r.mem_names_iff, r.contains_eq_isSome_lookup, hd]
    rfl

theorem Records.map_name_listed (h : r.Records ds) :
    r.listed.map TypeDeclaration.name = r.names := by
  have hmap : forall names : List String, (forall name, name ∈ names -> name ∈ r.names) ->
      (names.filterMap r.lookup).map TypeDeclaration.name = names := by
    intro names hnames
    induction names with
    | nil => rfl
    | cons name names ih =>
        have hin := hnames name List.mem_cons_self
        rw [r.mem_names_iff, r.contains_eq_isSome_lookup] at hin
        rcases Option.isSome_iff_exists.mp hin with ⟨d, hd⟩
        rw [List.filterMap_cons_some hd, List.map_cons, h.name_eq hd,
          ih fun other hother => hnames other (List.mem_cons_of_mem _ hother)]
  exact hmap r.names fun _ hname => hname

theorem Records.nodup_listed (h : r.Records ds) : (r.listed.map TypeDeclaration.name).Nodup := by
  rw [h.map_name_listed]
  exact r.pairwise_names.imp fun hlt heq => absurd (heq ▸ hlt) (List.lt_irrefl _)

theorem Records.listed_named (h : r.Records ds) : forall d, d ∈ r.listed ->
    d.isNameless = false := by
  intro d hd
  rcases (h.lookup d.name d).mp ((h.mem_listed_iff d).mp hd) with ⟨_, before, behind, rfl, _⟩
  exact h.named d (List.mem_append_right _ List.mem_cons_self)

theorem Records.length_listed (h : r.Records ds) : r.listed.length = r.size := by
  rw [← r.length_names, ← h.map_name_listed, List.length_map]

end Registry

/-- Among declarations with different names every one is the last of its name. -/
theorem lastNamed_iff_of_nodup {ds : List TypeDeclaration}
    (h : (ds.map TypeDeclaration.name).Nodup) (name : String) (d : TypeDeclaration) :
    LastNamed ds name d ↔ d ∈ ds ∧ d.name = name := by
  constructor
  · rintro ⟨hname, before, behind, rfl, _⟩
    exact ⟨List.mem_append_right _ List.mem_cons_self, hname⟩
  · rintro ⟨hd, hname⟩
    rcases List.append_of_mem hd with ⟨before, behind, rfl⟩
    refine ⟨hname, before, behind, rfl, ?_⟩
    intro later hlater hsame
    rw [List.map_append, List.map_cons] at h
    have hfresh := (List.nodup_cons.mp (List.nodup_append.mp h).2.1).1
    apply hfresh
    rw [hname, ← hsame]
    exact List.mem_map_of_mem hlater

namespace Registry

/-- An empty registry that takes the listed declarations is like the registry they come from. -/
theorem Records.lookup_listed {r : Registry} {ds : List TypeDeclaration} (h : r.Records ds)
    (name : String) : (r.listed.foldl Registry.insert empty).lookup name = r.lookup name := by
  have hrecords := records_empty.insertAll h.listed_named
  rw [List.nil_append] at hrecords
  apply Option.ext
  intro d
  rw [hrecords.lookup, lastNamed_iff_of_nodup h.nodup_listed, h.mem_listed_iff]
  constructor
  · rintro ⟨hd, rfl⟩
    exact hd
  · intro hd
    rw [h.name_eq hd]
    exact ⟨hd, rfl⟩

/-- A reader of declarations takes every text that spells some for these. -/
def ReadsSpelled (read : List UInt8 → Except JsonFault (List TypeDeclaration)) : Prop :=
  forall ds text, SpellsDocument (ds.map TypeDeclaration.members) text ->
    read (encode text) = .ok ds

theorem readsSpelled_declarationsOf : ReadsSpelled declarationsOf :=
  fun _ _ => declarationsOf_encode

/--
From any text that spells the declarations of a registry in the order of their names, an empty
registry takes as many declarations as the registry has, and then looks up the same for every
name. The compact text is one of these texts.
-/
theorem extend_listed {read : List UInt8 → Except JsonFault (List TypeDeclaration)}
    (hread : ReadsSpelled read) (origin : Origin) (qs : List (Request (List UInt8))) :
    let r := origin.registry.after read qs
    let objects := r.listed.map TypeDeclaration.members
    SpellsDocument objects (compactDocument objects) ∧
      forall text, SpellsDocument objects text ->
        exists r', (Update.extend read (encode text)).run empty = .ok r.size r' ∧
          forall name, r'.lookup name = r.lookup name := by
  intro r objects
  refine ⟨spellsDocument_compact objects, ?_⟩
  intro text htext
  have hrecords : r.Records _ := (Origin.records origin).after read qs
  have hnames : ¬ r.listed.any (·.isNameless) = true := by
    rw [Bool.not_eq_true, List.any_eq_false]
    intro d hd
    rw [hrecords.listed_named d hd]
    exact Bool.false_ne_true
  refine ⟨r.listed.foldl Registry.insert empty, ?_, hrecords.lookup_listed⟩
  rw [Update.extend_run, hread _ _ htext]
  dsimp only
  rw [if_neg hnames, hrecords.length_listed]

/-- Escapes are written and read, missing members are left out, and a refused declaration leaves
no trace. -/
theorem extend_listed_escapes :
    let d : TypeDeclaration := ⟨"Größe\x01", none, some "\"x\"\n", none⟩
    let r := Origin.empty.registry.after declarationsOf [.declaration d, .declaration (.ofName " ")]
    let text := "[\x7b\"name\":\"Größe\\u0001\",\"summary\":\"\\\"x\\\"\\n\"\x7d]".toList
    ReadsSpelled declarationsOf ∧ SpellsDocument (r.listed.map TypeDeclaration.members) text ∧
      exists r', (Update.extend declarationsOf (encode text)).run empty = .ok r.size r' ∧
        forall name, r'.lookup name = r.lookup name := by
  intro d r text
  have htext : compactDocument (r.listed.map TypeDeclaration.members) = text := by decide +kernel
  have hlisted := extend_listed readsSpelled_declarationsOf .empty
    [.declaration d, .declaration (.ofName " ")]
  have hspelled : SpellsDocument (r.listed.map TypeDeclaration.members) text := htext ▸ hlisted.1
  exact ⟨readsSpelled_declarationsOf, hspelled, hlisted.2 text hspelled⟩

end Registry
end TypeInfo
end ScriptHints
