import BlockLang.Token

/-! The conditions that a statement can test: what stands on the next cell, chance, and truth. -/

namespace BlockLang

/-- A condition of the language. -/
inductive Condition where
  | nextIsEmpty
  | nextIsNotEmpty
  | nextIsWall
  | nextIsNotWall
  | nextIsFriend
  | nextIsNotFriend
  | nextIsEnemy
  | nextIsNotEnemy
  | random
  | always
  deriving DecidableEq, Repr

namespace Condition

/-- Every condition, in the order of the language's definition. -/
def all : List Condition :=
  [nextIsEmpty, nextIsNotEmpty, nextIsWall, nextIsNotWall, nextIsFriend, nextIsNotFriend,
    nextIsEnemy, nextIsNotEnemy, random, always]

/-- The spelling of a condition in programs. -/
def token : Condition → Token
  | nextIsEmpty => "next-is-empty"
  | nextIsNotEmpty => "next-is-not-empty"
  | nextIsWall => "next-is-wall"
  | nextIsNotWall => "next-is-not-wall"
  | nextIsFriend => "next-is-friend"
  | nextIsNotFriend => "next-is-not-friend"
  | nextIsEnemy => "next-is-enemy"
  | nextIsNotEnemy => "next-is-not-enemy"
  | random => "random"
  | always => "true"

/-- The canonical name of a condition. -/
def name : Condition → String
  | nextIsEmpty => "NEXT_IS_EMPTY"
  | nextIsNotEmpty => "NEXT_IS_NOT_EMPTY"
  | nextIsWall => "NEXT_IS_WALL"
  | nextIsNotWall => "NEXT_IS_NOT_WALL"
  | nextIsFriend => "NEXT_IS_FRIEND"
  | nextIsNotFriend => "NEXT_IS_NOT_FRIEND"
  | nextIsEnemy => "NEXT_IS_ENEMY"
  | nextIsNotEnemy => "NEXT_IS_NOT_ENEMY"
  | random => "RANDOM"
  | always => "TRUE"

/-- The condition that a token spells. -/
def ofToken? (t : Token) : Option Condition := all.find? fun c => c.token == t

/-- The condition of a canonical name. -/
def ofName? (s : String) : Option Condition := all.find? fun c => c.name == s

end Condition

namespace Token

/-- Whether a token spells a condition. -/
def isCondition (t : Token) : Bool := (Condition.ofToken? t).isSome

/-- Whether a token can name a procedure: a word that starts with a letter and is neither a
keyword nor a condition. -/
def isIdentifier (t : Token) : Bool :=
  (match t.toList with
    | [] => false
    | c :: rest => c.isAlpha && rest.all isWordChar)
  && !t.isKeyword && !t.isCondition

end Token

end BlockLang
