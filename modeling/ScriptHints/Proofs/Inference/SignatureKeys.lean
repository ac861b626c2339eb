import ScriptHints.Proofs.Inference.Answers
import ScriptHints.Proofs.Tree.FittedRules
import ScriptHints.Proofs.Tree.Paths

/-!
# Keys of innermost calls

The key of a node is looked for on the way upwards. It belongs to the last call on the way down
from the root, and it tells the name and the number of arguments of this call: no name has a
parenthesis in it, so the key can be taken apart again.
-/

namespace ScriptHints

open Syntax

namespace Syntax

inductive Node.Calls : Node → NodeId → List NodeId → Prop where
  | call {target : NodeId} {arguments : List NodeId} :
      Calls (.call target arguments) target arguments
  | construction {target : NodeId} {arguments : List NodeId} :
      Calls (.construction target (some arguments)) target arguments
  | bare {target : NodeId} :
      Calls (.construction target none) target []

namespace SyntaxTree

def CallsAt (t : SyntaxTree) (id target : NodeId) (arguments : List NodeId) : Prop :=
  exists n, t.node id = .ok n ∧ n.Calls target arguments

def LastCall (t : SyntaxTree) (path : List NodeId) (target : NodeId) (arguments : List NodeId) :
    Prop :=
  exists before id behind, path = before ++ id :: behind ∧ t.CallsAt id target arguments ∧
    forall other target' arguments', other ∈ behind -> ¬ t.CallsAt other target' arguments'

/-- A call of a member has its name, and all other calls have none. -/
inductive CalledName (t : SyntaxTree) (target : NodeId) : String → Prop where
  | member {front member : NodeId} {name : String} :
      t.node target = .ok (.propertyAccess front member) ->
      t.node member = .ok (.identifier name) -> CalledName t target name
  | other {n : Node} :
      t.node target = .ok n -> (forall front member, n ≠ .propertyAccess front member) ->
      CalledName t target ""

theorem CalledName.eq {t : SyntaxTree} {target : NodeId} {name name' : String}
    (h : t.CalledName target name) (h' : t.CalledName target name') : name = name' := by
  cases h with
  | member haccess hmember =>
      cases h' with
      | member haccess' hmember' =>
          rw [haccess] at haccess'
          cases haccess'
          rw [hmember] at hmember'
          cases hmember'
          rfl
      | other hnode hother =>
          rw [haccess] at hnode
          cases hnode
          exact absurd rfl (hother _ _)
  | other hnode hother =>
      cases h' with
      | member haccess _ =>
          rw [hnode] at haccess
          cases haccess
          exact absurd rfl (hother _ _)
      | other => rfl

end SyntaxTree

end Syntax

namespace Inference

open Grammar Token

/-!
## The key as a text
-/

theorem length_placeholders (arity : Nat) :
    (",".intercalate (List.replicate arity "p")).toList.length = 2 * arity - 1 := by
  induction arity with
  | zero => rfl
  | succ arity ih =>
      cases arity with
      | zero => rfl
      | succ arity =>
          rw [List.replicate_succ, List.replicate_succ, String.intercalate_cons_cons,
            ← List.replicate_succ, String.toList_append, List.length_append, ih]
          show 2 + (2 * (arity + 1) - 1) = 2 * (arity + 1 + 1) - 1
          omega

theorem signatureKey_inj {name name' : String} {arity arity' : Nat}
    (hname : name.toList.all isWordPart = true) (hname' : name'.toList.all isWordPart = true)
    (h : signatureKey name arity = signatureKey name' arity') : name = name' ∧ arity = arity' := by
  have hkey (name : String) (arity : Nat) : (signatureKey name arity).toList =
      name.toList ++ '(' :: ((",".intercalate (List.replicate arity "p")).toList ++ [')']) := by
    simp [signatureKey]
  have hparen : isWordPart '(' = false := by decide +kernel
  have hlists := congrArg String.toList h
  rw [hkey, hkey] at hlists
  rcases append_inj_of_isWordPart hname hname' (endsWord_cons hparen _)
    (endsWord_cons hparen _) hlists
    with ⟨hsame, hrest⟩
  refine ⟨String.toList_inj.mp hsame, ?_⟩
  have hlength := congrArg List.length hrest
  simp only [List.length_cons, List.length_append, length_placeholders, List.length_nil] at hlength
  omega

/-!
## The first call upwards
-/

theorem callShape?_of_calls {n : Node} {target : NodeId} {arguments : List NodeId}
    (h : n.Calls target arguments) : callShape? n = some (target, arguments.length) := by
  cases h <;> rfl

theorem callShape?_eq_none {n : Node} (h : forall target arguments, ¬ n.Calls target arguments) :
    callShape? n = none := by
  cases n with
  | call target arguments => exact absurd .call (h target arguments)
  | construction target arguments =>
      cases arguments with
      | none => exact absurd .bare (h target [])
      | some arguments => exact absurd .construction (h target arguments)
  | _ => rfl

theorem firstCall?_cons {n : Node} (h : forall statements, n ≠ .script statements)
    (nodes : List Node) : firstCall? (n :: nodes) = (callShape? n).or (firstCall? nodes) := by
  cases n with
  | script statements => exact absurd rfl (h statements)
  | _ => rfl

variable {t : SyntaxTree}

theorem firstCall?_eq_none {ids : List NodeId} {nodes : List Node}
    (hnodes : ids.mapM t.node = .ok nodes)
    (hcalls : forall id target arguments, id ∈ ids -> ¬ t.CallsAt id target arguments) :
    firstCall? nodes = none := by
  induction ids generalizing nodes with
  | nil =>
      cases hnodes
      rfl
  | cons id ids ih =>
      rw [List.mapM_cons] at hnodes
      rcases exists_of_bind hnodes with ⟨n, hnode, hrest⟩
      rcases exists_of_bind hrest with ⟨more, hmore, hrest⟩
      cases hrest
      have hshape : callShape? n = none := callShape?_eq_none fun target arguments hcall =>
        hcalls id target arguments List.mem_cons_self ⟨n, hnode, hcall⟩
      have hnone : firstCall? more = none := ih hmore fun other target arguments hother =>
        hcalls other target arguments (List.mem_cons_of_mem _ hother)
      by_cases hscript : exists statements, n = .script statements
      · rcases hscript with ⟨statements, rfl⟩
        rfl
      · rw [firstCall?_cons (fun statements heq => hscript ⟨statements, heq⟩), hshape, hnone]
        rfl

/-- A call is found if there is neither a call nor a script in front of it. -/
theorem firstCall?_of_callsAt {before behind : List NodeId} {nodes : List Node}
    {id target : NodeId} {arguments : List NodeId}
    (hnodes : (before ++ id :: behind).mapM t.node = .ok nodes)
    (hcall : t.CallsAt id target arguments)
    (hcalls : forall other target' arguments', other ∈ before ->
      ¬ t.CallsAt other target' arguments')
    (hscript : forall other statements, other ∈ before -> t.node other ≠ .ok (.script statements)) :
    firstCall? nodes = some (target, arguments.length) := by
  induction before generalizing nodes with
  | nil =>
      rw [List.nil_append, List.mapM_cons] at hnodes
      rcases exists_of_bind hnodes with ⟨n, hnode, hrest⟩
      rcases exists_of_bind hrest with ⟨more, _, hrest⟩
      cases hrest
      rcases hcall with ⟨n', hnode', hcall⟩
      rw [hnode] at hnode'
      cases hnode'
      cases hcall <;> rfl
  | cons other before ih =>
      rw [List.cons_append, List.mapM_cons] at hnodes
      rcases exists_of_bind hnodes with ⟨n, hnode, hrest⟩
      rcases exists_of_bind hrest with ⟨more, hmore, hrest⟩
      cases hrest
      have hshape : callShape? n = none := callShape?_eq_none fun target' arguments' hcall =>
        hcalls other target' arguments' List.mem_cons_self ⟨n, hnode, hcall⟩
      have hplain : forall statements, n ≠ .script statements := by
        rintro statements rfl
        exact hscript other statements List.mem_cons_self hnode
      rw [firstCall?_cons hplain, hshape, Option.none_or]
      apply ih hmore
      · exact fun other' target' arguments' hother =>
          hcalls other' target' arguments' (List.mem_cons_of_mem _ hother)
      · exact fun other' statements hother =>
          hscript other' statements (List.mem_cons_of_mem _ hother)

/-!
## Parsed trees
-/

variable {text : String} {o : Options} {tree : SyntaxTree} {root id : NodeId} {path : List NodeId}

theorem enclosingSignature_eq {ids : List NodeId} {nodes : List Node}
    (hids : tree.ancestors id = .ok ids) (hnodes : ids.mapM tree.node = .ok nodes) :
    enclosingSignature tree id = (firstCall? nodes).elim (pure none) fun call => do
      return some (signatureKey (← memberName tree call.1) call.2) := by
  unfold enclosingSignature
  rw [hids]
  show (ids.mapM tree.node >>= fun nodes => _) = _
  rw [hnodes]
  dsimp only [bind, Except.bind]
  cases firstCall? nodes <;> rfl

/-- The key of a node is told by the first call on its path upwards. -/
theorem enclosingSignature_of_path {stream : TokenStream} {f : Forest}
    (hwhole : Whole (scriptContext text stream o) tree root f) (hpath : tree.Path root id path) :
    exists nodes, path.reverse.mapM tree.node = .ok nodes ∧
      enclosingSignature tree id = (firstCall? nodes).elim (pure none) fun call => do
        return some (signatureKey (← memberName tree call.1) call.2) := by
  have hfound : forall other, other ∈ path.reverse -> Faultless (tree.node other) := by
    intro other hother
    have hreaches := hpath.reaches_of_mem (List.mem_reverse.mp hother)
    have hmem := (hwhole.mem_iff_reaches other).mpr hreaches
    exact (hwhole.sound.node_yields (hwhole.entries.index_lt hmem)).faultless
  have hnodes : Faultless (path.reverse.mapM tree.node) := (Yields.mapM hfound).faultless
  rcases hnodes with ⟨nodes, hnodes, _⟩
  exact ⟨nodes, hnodes, enclosingSignature_eq (hwhole.ancestors_of_path hpath) hnodes⟩

theorem memberName_of_calledName {target : NodeId} {name : String}
    (h : tree.CalledName target name) : memberName tree target = .ok name := by
  unfold memberName
  cases h with
  | member haccess hmember =>
      rw [haccess]
      show (tree.identifierName _ >>= fun name => _) = _
      unfold SyntaxTree.identifierName
      rw [hmember]
      rfl
  | @other n hnode hother =>
      rw [hnode]
      cases n with
      | propertyAccess front member => exact absurd rfl (hother front member)
      | _ => rfl

theorem exists_calledName (h : Parses text o tree) {target : NodeId} {n : Node}
    (hnode : tree.node target = .ok n) :
    exists name, tree.CalledName target name ∧ name.toList.all isWordPart = true := by
  by_cases haccess : exists front member, n = .propertyAccess front member
  · rcases haccess with ⟨front, member, rfl⟩
    rcases whole_of_parses h with ⟨stream, _, _, htokens, _⟩
    rcases fits_of_parses h htokens hnode with ⟨_, name, hmember⟩ | ⟨_, _, hscript⟩
    · exact ⟨name, .member hnode hmember, (isWord_of_parses h hmember).2⟩
    · cases hscript
  · exact ⟨"", .other hnode fun front member heq => haccess ⟨front, member, heq⟩, rfl⟩

/-- Only the root may be a script, so behind the top of a path none is. -/
theorem not_script_of_path (h : Parses text o tree) (hpath : tree.Path root id path)
    (hroot : tree.root = some root) {before behind : List NodeId} {call : NodeId}
    (hsplit : path = before ++ call :: behind) {other : NodeId} (hother : other ∈ behind)
    (statements : List NodeId) : tree.node other ≠ .ok (.script statements) := by
  intro hnode
  rcases whole_of_parses h with ⟨stream, root', f, htokens, hwhole⟩
  rcases fits_of_parses h htokens hnode with hfalse | ⟨htop, _⟩
  · exact hfalse
  rw [hroot] at htop
  cases htop
  rw [hwhole.top] at hroot
  cases hroot
  rcases hpath.exists_below with ⟨below, rfl, hbelow⟩
  have hin : root ∈ below := by
    cases before with
    | nil =>
        rw [(List.cons.inj hsplit).2]
        exact hother
    | cons first before =>
        rw [(List.cons.inj hsplit).2]
        exact List.mem_append_right _ (List.mem_cons_of_mem _ hother)
  rcases hbelow root hin with ⟨above, habove, hchild⟩
  have hparent := (hwhole.entries.mem_of_isChild ((hwhole.mem_iff_reaches above).mpr habove)
    hchild).2
  rw [hwhole.parent_root] at hparent
  cases hparent

theorem exists_target (h : tree.Sound) {call target : NodeId} {arguments : List NodeId}
    (hcall : tree.CallsAt call target arguments) : exists n, tree.node target = .ok n := by
  rcases hcall with ⟨n, hnode, hcall⟩
  rcases h.node_yields (SyntaxTree.index_lt_of_node hnode) with ⟨n', hnode', hchildren⟩
  rw [hnode] at hnode'
  cases hnode'
  have hchild := mem_children_of_callShape? (callShape?_of_calls hcall)
  rcases (h.node_yields (hchildren target hchild)).faultless with ⟨n, hnode, _⟩
  exact ⟨n, hnode⟩

theorem enclosingSignature_of_lastCall (h : Parses text o tree) (hroot : tree.root = some root)
    (hpath : tree.Path root id path) {target : NodeId} {arguments : List NodeId}
    (hcall : tree.LastCall path target arguments) :
    exists name, tree.CalledName target name ∧ name.toList.all isWordPart = true ∧
      enclosingSignature tree id = .ok (some (signatureKey name arguments.length)) := by
  rcases whole_of_parses h with ⟨stream, root', f, htokens, hwhole⟩
  rcases hcall with ⟨before, call, behind, hsplit, hcall, hcalls⟩
  have hscript := fun other statements (hother : other ∈ behind.reverse) =>
    not_script_of_path h hpath hroot hsplit (List.mem_reverse.mp hother) statements
  rw [hwhole.top] at hroot
  cases hroot
  rcases enclosingSignature_of_path hwhole hpath with ⟨nodes, hnodes, hkey⟩
  have hfirst : firstCall? nodes = some (target, arguments.length) := by
    rw [hsplit, List.reverse_append, List.reverse_cons, List.append_assoc] at hnodes
    exact firstCall?_of_callsAt hnodes hcall
      (fun other target' arguments' hother =>
        hcalls other target' arguments' (List.mem_reverse.mp hother))
      hscript
  rcases exists_target hwhole.sound hcall with ⟨n, hnode⟩
  rcases exists_calledName h hnode with ⟨name, hname, hword⟩
  refine ⟨name, hname, hword, ?_⟩
  rw [hkey, hfirst]
  show (memberName tree target >>= fun name => _) = _
  rw [memberName_of_calledName hname]
  rfl

theorem enclosingSignature_eq_none (h : Parses text o tree) (hroot : tree.root = some root)
    (hpath : tree.Path root id path)
    (hcalls : forall other target arguments, other ∈ path ->
      ¬ tree.CallsAt other target arguments) :
    enclosingSignature tree id = .ok none := by
  rcases whole_of_parses h with ⟨stream, root', f, _, hwhole⟩
  rw [hwhole.top] at hroot
  cases hroot
  rcases enclosingSignature_of_path hwhole hpath with ⟨nodes, hnodes, hkey⟩
  have hnone := firstCall?_eq_none hnodes fun other target arguments hother =>
    hcalls other target arguments (List.mem_reverse.mp hother)
  rw [hkey, hnone]
  rfl

/--
Just one path leads from the root of a parsed tree down to a node. Without a call on it the node
has no key. Otherwise the last call on the path tells the key: the name of the member that is
called, and as many placeholders as there are arguments. Two nodes, of one tree or of two, have
the same key only if their last calls have the same name and the same number of arguments.
-/
theorem enclosingSignature_innermost (h : Parses text o tree) :
    exists root, tree.root = some root ∧ forall id, tree.Reaches root id ->
      exists path, tree.Path root id path ∧
        (forall path', tree.Path root id path' -> path' = path) ∧
        ((forall other target arguments, other ∈ path -> ¬ tree.CallsAt other target arguments) ->
          enclosingSignature tree id = .ok none) ∧
        (forall target arguments, tree.LastCall path target arguments ->
          exists name, tree.CalledName target name ∧
            enclosingSignature tree id = .ok (some (signatureKey name arguments.length))) ∧
        (forall (text' : String) (o' : Options) (tree' : SyntaxTree) (root' id' : NodeId)
          (path' : List NodeId) (target target' : NodeId) (arguments arguments' : List NodeId)
          (name name' : String),
          Parses text' o' tree' -> tree'.root = some root' -> tree'.Path root' id' path' ->
          tree.LastCall path target arguments -> tree'.LastCall path' target' arguments' ->
          tree.CalledName target name -> tree'.CalledName target' name' ->
          enclosingSignature tree id = enclosingSignature tree' id' ->
          name = name' ∧ arguments.length = arguments'.length) := by
  rcases whole_of_parses h with ⟨stream, root, f, _, hwhole⟩
  refine ⟨root, hwhole.top, ?_⟩
  intro id hreaches
  rcases SyntaxTree.exists_path hreaches with ⟨path, hpath⟩
  refine ⟨path, hpath, fun path' hpath' => hwhole.path_unique hpath hpath',
    enclosingSignature_eq_none h hwhole.top hpath, ?_, ?_⟩
  · intro target arguments hcall
    rcases enclosingSignature_of_lastCall h hwhole.top hpath hcall with ⟨name, hname, _, hkey⟩
    exact ⟨name, hname, hkey⟩
  · intro text' o' tree' root' id' path' target target' arguments arguments' name name' h' hroot'
      hpath' hcall hcall' hname hname' hsame
    rcases enclosingSignature_of_lastCall h hwhole.top hpath hcall with
      ⟨called, hcalled, hword, hkey⟩
    rcases enclosingSignature_of_lastCall h' hroot' hpath' hcall' with
      ⟨called', hcalled', hword', hkey'⟩
    rw [hkey, hkey', Except.ok.injEq, Option.some.injEq] at hsame
    rcases signatureKey_inj hword hword' hsame with ⟨hnames, hcount⟩
    rw [hname.eq hcalled, hname'.eq hcalled']
    exact ⟨hnames, hcount⟩

theorem enclosingSignature_innermost_construction :
    enclosingSignature constructionTree ⟨3⟩ = .ok (some "b(p)") ∧
    exists root, constructionTree.root = some root ∧ forall id, constructionTree.Reaches root id ->
      exists path, constructionTree.Path root id path ∧
        (forall path', constructionTree.Path root id path' -> path' = path) ∧
        ((forall other target arguments, other ∈ path ->
            ¬ constructionTree.CallsAt other target arguments) ->
          enclosingSignature constructionTree id = .ok none) ∧
        (forall target arguments, constructionTree.LastCall path target arguments ->
          exists name, constructionTree.CalledName target name ∧
            enclosingSignature constructionTree id =
              .ok (some (signatureKey name arguments.length))) := by
  refine ⟨by cbv, ?_⟩
  rcases enclosingSignature_innermost parses_construction with ⟨root, hroot, hnodes⟩
  refine ⟨root, hroot, fun id hreaches => ?_⟩
  rcases hnodes id hreaches with ⟨path, hpath, hunique, hnone, hsome, _⟩
  exact ⟨path, hpath, hunique, hnone, hsome⟩

end Inference
end ScriptHints
