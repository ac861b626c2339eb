import ScriptHints.Proofs.Json.Spelling
import ScriptHints.TypeInfo.DeclarationReader

/-!
# Spelled declarations are read

A declaration is spelled as an object that leaves out the members that are missing. Whatever the
spelling of its strings is, and wherever blanks stand, the declaration is read from it.
-/

namespace ScriptHints
namespace TypeInfo

open Json

/-!
## Members
-/

def TypeDeclaration.members (d : TypeDeclaration) : List (String × String) :=
  ("name", d.name) :: ((d.qualifiedName.map ("qualified_name", ·)).toList ++
    ((d.summary.map ("summary", ·)).toList ++ (d.supertype.map ("supertype", ·)).toList))

inductive Members.Adds (m : Members) : String → String → Members → Prop where
  | name {value : String} :
      m.name = none -> m.Adds "name" value { m with name := some value }
  | qualifiedName {value : String} :
      m.qualifiedName = none ->
      m.Adds "qualified_name" value { m with qualifiedName := some (some value) }
  | summary {value : String} :
      m.summary = none -> m.Adds "summary" value { m with summary := some (some value) }
  | supertype {value : String} :
      m.supertype = none -> m.Adds "supertype" value { m with supertype := some (some value) }

inductive Members.AddsAll : Members → List (String × String) → Members → Prop where
  | nil {m : Members} : m.AddsAll [] m
  | cons {m m' m'' : Members} {key value : String} {members : List (String × String)} :
      m.Adds key value m' -> m'.AddsAll members m'' -> m.AddsAll ((key, value) :: members) m''

theorem Members.AddsAll.append {m m' m'' : Members} {members members' : List (String × String)}
    (h : m.AddsAll members m') (h' : m'.AddsAll members' m'') :
    m.AddsAll (members ++ members') m'' := by
  induction h with
  | nil => exact h'
  | cons hadd _ ih => exact .cons hadd (ih h')

theorem addsAll_optional {f : Option (Option String) → Members} {key : String}
    (hadd : forall text, (f none).Adds key text (f (some (some text)))) (value : Option String) :
    (f none).AddsAll (value.map (key, ·)).toList (f (value.map some)) := by
  cases value with
  | none => exact .nil
  | some text => exact .cons (hadd text) .nil

theorem exists_addsAll (d : TypeDeclaration) :
    exists m, Members.empty.AddsAll d.members m ∧ m.declaration = pure d := by
  rcases d with ⟨name, qualifiedName, summary, supertype⟩
  have hqualifiedName := addsAll_optional (f := fun q => ⟨some name, q, none, none⟩)
    (fun _ => .qualifiedName rfl) qualifiedName
  have hsummary := addsAll_optional
    (f := fun s => ⟨some name, qualifiedName.map some, s, none⟩) (fun _ => .summary rfl) summary
  have hsupertype := addsAll_optional
    (f := fun s => ⟨some name, qualifiedName.map some, summary.map some, s⟩)
    (fun _ => .supertype rfl) supertype
  have hjoin (value : Option String) : (value.map some).join = value := by
    cases value <;> rfl
  refine ⟨_, .cons (.name rfl) (hqualifiedName.append (hsummary.append hsupertype)), ?_⟩
  unfold Members.declaration
  simp only [hjoin]

theorem reads_readText {text : String} {spelled : List Char} (h : SpellsText text spelled)
    (rest : List Char) : Reads readText (spelled ++ rest) rest text := by
  rcases h with ⟨opening, inside, hopening, hinside, rfl⟩
  rw [List.append_assoc, List.append_assoc]
  unfold readText
  refine reads_peek_bind (by decide) hopening _ ?_
  rw [if_pos rfl]
  exact (reads_drop (by decide) _).bind (reads_stringTail hinside rest)

theorem reads_readOptionalText {text : String} {spelled : List Char} (h : SpellsText text spelled)
    (rest : List Char) : Reads readOptionalText (spelled ++ rest) rest (some text) := by
  rcases h with ⟨opening, inside, hopening, hinside, rfl⟩
  have hquote : SpellsText text ('"' :: (inside ++ ['"'])) :=
    ⟨['"'], inside, ⟨[], blanks_nil, rfl⟩, hinside, rfl⟩
  rw [List.append_assoc]
  unfold readOptionalText
  refine reads_peek_bind (by decide) hopening _ ?_
  rw [if_neg (by decide)]
  exact (reads_readText hquote rest).map

theorem reads_readOnce {x : JsonReader β} {f : β → α} {colon spelled rest : List Char} {b : β}
    {seen : Option γ} (hseen : seen = none) (hcolon : Marked ':' colon)
    (hx : Reads x (spelled ++ rest) rest b) :
    Reads (do return f (← readOnce seen.isSome x)) (colon ++ (spelled ++ rest)) rest (f b) := by
  rw [hseen]
  exact ((reads_require (by decide) hcolon _).bind hx).bind .pure

theorem reads_readMember {m m' : Members} {key value : String} (h : m.Adds key value m')
    {colon spelled : List Char} (hcolon : Marked ':' colon) (hvalue : SpellsText value spelled)
    (rest : List Char) : Reads (readMember key m) (colon ++ (spelled ++ rest)) rest m' := by
  cases h with
  | name h => exact reads_readOnce h hcolon (reads_readText hvalue rest)
  | qualifiedName h => exact reads_readOnce h hcolon (reads_readOptionalText hvalue rest)
  | summary h => exact reads_readOnce h hcolon (reads_readOptionalText hvalue rest)
  | supertype h => exact reads_readOnce h hcolon (reads_readOptionalText hvalue rest)

theorem reads_item {first : Bool} {comma : List Char} (hcomma : Separated first comma)
    {close c : Char} (hclose : close ≠ ',' ∧ c ≠ close) (hc : IsMark c) {opening : List Char}
    (hopening : Marked c opening) {x y : JsonReader α} {text rest : List Char} {a : α}
    (hy : forall opening', Marked c opening' -> Reads y (opening' ++ text) rest a) :
    Reads (do
      if (← peek) = close then x
      else
        unless first do
          require ','
        y) (comma ++ (opening ++ text)) rest a := by
  cases first with
  | true =>
      cases hcomma
      refine reads_peek_bind hc hopening text ?_
      rw [if_neg hclose.2]
      exact hy [c] ⟨[], blanks_nil, rfl⟩
  | false =>
      refine reads_peek_bind (by decide) hcomma (opening ++ text) ?_
      rw [if_neg hclose.1.symm]
      have hmark : Marked ',' [','] := ⟨[], blanks_nil, rfl⟩
      exact (reads_require (by decide) hmark _).bind (hy opening hopening)

theorem reads_end {close : Char} (hclose : IsMark close) {closing : List Char}
    (hclosing : Marked close closing) {x y : JsonReader α} {rest : List Char} {a : α}
    (hx : Reads x rest rest a) :
    Reads (do
      if (← peek) = close then
        drop
        x
      else y) (closing ++ rest) rest a := by
  refine reads_peek_bind hclose hclosing rest ?_
  rw [if_pos rfl]
  exact (reads_drop hclose.1 rest).bind hx

theorem reads_readMembers {first : Bool} {members : List (String × String)} {inside : List Char}
    (h : SpellsMembers first members inside) {m m' : Members} (hadds : m.AddsAll members m')
    {d : TypeDeclaration} (hd : m'.declaration = pure d) {bytes : Nat}
    (hbytes : members.length < bytes) (rest : List Char) :
    Reads (readMembers bytes first m) (inside ++ rest) rest d := by
  induction h generalizing m bytes with
  | nil hclosing =>
      rcases (⟨bytes - 1, by omega⟩ : exists b, bytes = b + 1) with ⟨bytes, rfl⟩
      cases hadds
      exact reads_end (by decide) hclosing (by rw [hd]; exact .pure)
  | @cons first key value comma spelled colon spelled' more members hcomma hkey hcolon
      hvalue _ ih =>
      rcases (⟨bytes - 1, by omega⟩ : exists b, bytes = b + 1) with ⟨bytes, rfl⟩
      cases hadds with
      | cons hadd hadds =>
          have hmore := ih hadds (Nat.lt_of_succ_lt_succ hbytes)
          rcases hkey with ⟨opening, inside, hopening, hinside, rfl⟩
          simp only [List.append_assoc, List.cons_append, List.nil_append]
          refine reads_item hcomma (by decide) (by decide) hopening fun opening' hopening' => ?_
          refine (reads_require (by decide) hopening' _).bind ?_
          refine (reads_stringTail hinside _).bind ?_
          exact (reads_readMember hadd hcolon hvalue _).bind hmore

/-!
## Declarations
-/

theorem reads_readDeclaration {d : TypeDeclaration} {opening inside : List Char}
    (hopening : Marked '{' opening) (h : SpellsMembers true d.members inside) (rest : List Char) :
    Reads readDeclaration (opening ++ (inside ++ rest)) rest d := by
  rcases exists_addsAll d with ⟨m, hadds, hd⟩
  unfold readDeclaration
  refine reads_peek_bind (by decide) hopening _ ?_
  rw [if_neg (by decide), if_pos rfl]
  refine (reads_drop (by decide) _).bind (.bind_get ?_)
  refine reads_readMembers h hadds hd ?_ rest
  have hlength := length_le_length_encode (inside ++ rest)
  have hmembers := h.length_lt
  rw [List.length_append] at hlength
  omega

theorem reads_readDeclarations {first : Bool} {objects : List (List (String × String))}
    {inside : List Char} (h : SpellsObjects first objects inside) {ds : List TypeDeclaration}
    (hds : objects = ds.map TypeDeclaration.members) {bytes : Nat} (hbytes : objects.length < bytes)
    (rest : List Char) : Reads (readDeclarations bytes first) (inside ++ rest) rest ds := by
  induction h generalizing ds bytes with
  | nil hclosing =>
      rcases (⟨bytes - 1, by omega⟩ : exists b, bytes = b + 1) with ⟨bytes, rfl⟩
      rw [List.map_eq_nil_iff.mp hds.symm]
      exact reads_end (by decide) hclosing .pure
  | @cons first members comma opening inside more objects hcomma hopening hinside _ ih =>
      rcases (⟨bytes - 1, by omega⟩ : exists b, bytes = b + 1) with ⟨bytes, rfl⟩
      cases ds with
      | nil => cases hds
      | cons d ds =>
          rcases List.cons.inj hds with ⟨rfl, hmap⟩
          have hmore := ih hmap (Nat.lt_of_succ_lt_succ hbytes)
          simp only [List.append_assoc]
          refine reads_item hcomma (by decide) (by decide) hopening fun opening' hopening' => ?_
          exact (reads_readDeclaration hopening' hinside (more ++ rest)).bind (hmore.bind .pure)

theorem declarationsOf_encode {ds : List TypeDeclaration} {text : List Char}
    (h : SpellsDocument (ds.map TypeDeclaration.members) text) :
    declarationsOf (encode text) = .ok ds := by
  rcases h with ⟨opening, inside, behind, hopening, hinside, hbehind, rfl⟩
  have hread : Reads readDocument (opening ++ (inside ++ behind)) behind ds := by
    unfold readDocument
    refine reads_peek_bind (by decide) hopening _ ?_
    rw [if_pos rfl]
    refine (reads_drop (by decide) _).bind (.bind_get ?_)
    refine (reads_readDeclarations hinside rfl ?_ behind).bind ?_
    · have hlength := length_le_length_encode (inside ++ behind)
      have hobjects := hinside.length_lt
      rw [List.length_append] at hlength
      omega
    · exact (reads_atEnd hbehind).bind .pure
  unfold declarationsOf
  rw [hread]
  rfl

end TypeInfo
end ScriptHints
