import BlockLang.Parser

/-! A token stream that is consumed from the front and knows how many tokens are gone. -/

namespace BlockLang

/-- The tokens left, and the number of tokens taken before them. -/
structure TokenStream where
  rest : List Token
  position : Nat
  deriving DecidableEq, Repr

namespace TokenStream

def ofTokens (ts : List Token) : TokenStream := ⟨ts, 0⟩

/-- The token at the front, or the sentinel. -/
def front (s : TokenStream) : Token := Parser.front s.rest

/-- Takes the token at the front. -/
def dequeue (s : TokenStream) : Except SyntaxError Token × TokenStream :=
  match s.rest with
  | [] => (.error (Parser.Violation.moreTokens.error s.position none), s)
  | t :: rest => (.ok t, ⟨rest, s.position + 1⟩)

/-- Takes the token at the front, which must be `keyword`. -/
def expect (s : TokenStream) (keyword : Token) (text : String) :
    Except SyntaxError Token × TokenStream :=
  if s.front = keyword then s.dequeue
  else (.error ⟨.unexpectedToken, text, some s.position, some s.front⟩, s)

end TokenStream

end BlockLang
