import LayeredConfig.Mapping.Basic

/-!
# LayeredConfig.Mapping.Dotted

The dotted dialect of maps and files: raw keys are written names.  The keys to try for a name are

1. its canonical text (`server.context-path`, `list[0].value`);
2. the same with literals in camel case (`server.contextPath`);
3. every element after a dot, numbers too (`list.0.value`);
4. every number in brackets, also one that was written as a literal (`list[0].value`).

A key that occurs twice is tried once.
-/

namespace LayeredConfig.Mapping

/-- The element in camel case, or in brackets if it was written so. -/
def camelPiece : Element → Name.Piece
  | .index i => .bracketed i
  | e => .plain e.camelChars

/-- The element as plain text, whether it is a number or not. -/
def plainPiece (e : Element) : Name.Piece := .plain e.dashedChars

/-- The element in brackets if it is a number. -/
def bracketedPiece (e : Element) : Name.Piece :=
  match e.asIndex? with
  | some i => .bracketed i
  | none => .plain e.dashedChars

/-- A name written with the given form for its elements. -/
def written (piece : Element → Name.Piece) (n : Name) : String :=
  String.ofList (Name.layout (n.elements.map piece))

/-- The keys, each at its first occurrence. -/
def distinct : List String → List String
  | [] => []
  | k :: ks => k :: (distinct ks).filter (· ≠ k)

/-- The dotted raw keys to try for a name. -/
def dottedKeys (n : Name) : List String :=
  distinct [n.canonical, written camelPiece n, written plainPiece n, written bracketedPiece n]

/-- The dotted dialect. -/
def dotted : Mapper where
  dialect := .dotted
  candidates n := .ok ((dottedKeys n).map (.plain · n))
  nameOf key := (Name.parse key).mapError fun m => .unmappableKey key (.malformed m)

end LayeredConfig.Mapping
