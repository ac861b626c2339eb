import ScriptHints.Text.CharClass

/-!
# Blanks

Two notions of blank live side by side. Between the tokens of a script only six
characters count as blank, and line terminators are kept apart from them. Names of
types are blank when they hold nothing but characters with the property
`White_Space` of the Unicode standard.
-/

namespace ScriptHints
namespace Text

/-- Space, tab, vertical tab, form feed, no-break space and the byte order mark. -/
def isScriptBlank (c : Char) : Bool :=
  c = ' ' || c = '\t' || c = '\x0b' || c = '\x0c' || c = '\u00a0' || c = '\ufeff'

def whiteSpace : CharClass := ⟨
  [ (0x9, 0xD), (0x20, 0x20), (0x85, 0x85), (0xA0, 0xA0), (0x1680, 0x1680),
    (0x2000, 0x200A), (0x2028, 0x2029), (0x202F, 0x202F), (0x205F, 0x205F),
    (0x3000, 0x3000) ]⟩

def isWhiteSpace (c : Char) : Bool :=
  whiteSpace.contains c

/-- No character of the text is other than white space. -/
def isBlankText (text : String) : Bool :=
  text.toList.all isWhiteSpace

end Text
end ScriptHints
