import ScriptHints.Text.Place
import ScriptHints.Token.Reading

/-!
# Comments

A line comment runs up to the next line terminator, which is not part of it. A block
comment runs through the first closing mark and may hold line terminators.
-/

namespace ScriptHints
namespace Token

open Text

def lineComment (text : List Char) : Reading Unit :=
  Reading.run (fun c => !isLineTerminator c) text

/-- The inside of a block comment with its closing mark; false when there is none. -/
def blockCommentTail : List Char → Reading Bool
  | [] => ⟨false, [], []⟩
  | '*' :: '/' :: text => ⟨true, ['*', '/'], text⟩
  | c :: text => (blockCommentTail text).extend [c]

theorem splits_lineComment (text : List Char) : (lineComment text).Splits text :=
  Reading.splits_run _ text

theorem splits_blockCommentTail (text : List Char) :
    (blockCommentTail text).Splits text := by
  fun_induction blockCommentTail text with
  | case1 => rfl
  | case2 text => rfl
  | case3 c text _ ih => exact ih.extend [c]

end Token
end ScriptHints
