import Mathlib.Data.Bool.AllAny
import Mathlib.Data.List.Basic

/-! The lexical grammar of GraphQL documents. -/
namespace Agend.Library.Graphql

def NameStart (c : Char) : Prop :=
  c = '_' ∨ ('a' ≤ c ∧ c ≤ 'z') ∨ ('A' ≤ c ∧ c ≤ 'Z')

def Digit (c : Char) : Prop := '0' ≤ c ∧ c ≤ '9'

def NameContinue (c : Char) : Prop := NameStart c ∨ Digit c

instance : DecidablePred NameStart := fun c =>
  inferInstanceAs (Decidable (c = '_' ∨ ('a' ≤ c ∧ c ≤ 'z') ∨ ('A' ≤ c ∧ c ≤ 'Z')))

instance : DecidablePred Digit := fun c => inferInstanceAs (Decidable ('0' ≤ c ∧ c ≤ '9'))

instance : DecidablePred NameContinue := fun c =>
  inferInstanceAs (Decidable (NameStart c ∨ Digit c))

def LineTerminator (c : Char) : Prop := c = '\n' ∨ c = '\r'

/-- What stands between tokens: a byte order mark, blanks, ends of lines and commas. -/
def blanks : List Char := [Char.ofNat 0xFEFF, '\t', ' ', '\n', '\r', ',']

def punctuators : List (List Char) :=
  [['!'], ['$'], ['&'], ['('], [')'], ['.', '.', '.'], [':'], ['='], ['@'], ['['], [']'], ['\x7b'],
    ['|'], ['\x7d']]

/-- The rest of the text does not start with such a character. -/
def Ends (P : Char → Prop) (rest : List Char) : Prop := ∀ c ∈ rest.head?, ¬ P c

def Digits (text : List Char) : Prop := text ≠ [] ∧ ∀ c ∈ text, Digit c

inductive IntegerPart : List Char → Prop
  | zero : IntegerPart ['0']
  | digits (d : Char) (more : List Char) (hd : Digit d) (hzero : d ≠ '0')
      (hmore : ∀ c ∈ more, Digit c) : IntegerPart (d :: more)

inductive FractionalPart : List Char → Prop
  | none : FractionalPart []
  | digits (text : List Char) (h : Digits text) : FractionalPart ('.' :: text)

inductive ExponentPart : List Char → Prop
  | none : ExponentPart []
  | plain (e : Char) (text : List Char) (he : e = 'e' ∨ e = 'E') (h : Digits text) :
      ExponentPart (e :: text)
  | signed (e sign : Char) (text : List Char) (he : e = 'e' ∨ e = 'E')
      (hsign : sign = '+' ∨ sign = '-') (h : Digits text) : ExponentPart (e :: sign :: text)

/-- Integers and floats. -/
inductive Number : List Char → Prop
  | mk (sign integer fraction exponent : List Char) (hsign : sign = [] ∨ sign = ['-'])
      (hinteger : IntegerPart integer) (hfraction : FractionalPart fraction)
      (hexponent : ExponentPart exponent) : Number (sign ++ (integer ++ (fraction ++ exponent)))

def HexDigit (c : Char) : Prop := Digit c ∨ ('a' ≤ c ∧ c ≤ 'f') ∨ ('A' ≤ c ∧ c ≤ 'F')

/-- One character of a string as it is written. -/
inductive StringCharacter : List Char → Prop
  | plain (c : Char) (hquote : c ≠ '"') (hslash : c ≠ '\\') (hline : ¬ LineTerminator c) :
      StringCharacter [c]
  | escaped (c : Char) (h : c ∈ ['"', '\\', '/', 'b', 'f', 'n', 'r', 't']) :
      StringCharacter ['\\', c]
  | unicode (digits : List Char) (hlength : digits.length = 4) (h : ∀ c ∈ digits, HexDigit c) :
      StringCharacter ('\\' :: 'u' :: digits)
  | braced (digits : List Char) (hdigits : digits ≠ []) (h : ∀ c ∈ digits, HexDigit c) :
      StringCharacter ('\\' :: 'u' :: '\x7b' :: (digits ++ ['\x7d']))

/-- What follows the opening quote of a string, up to the closing one. -/
inductive StringText : List Char → Prop
  | nil : StringText []
  | cons (c text : List Char) (hc : StringCharacter c) (h : StringText text) :
      StringText (c ++ text)

/-- What stands in a string starts with no quote. -/
theorem StringText.head_ne_quote {text : List Char} (h : StringText text) :
    ∀ c ∈ text.head?, c ≠ '"' := by
  cases h with
  | nil => intro c hc; exact absurd hc (by simp)
  | cons c text hc h =>
    cases hc with
    | plain c hquote hslash hline =>
      intro d hd
      exact Option.mem_some_iff.mp hd ▸ hquote
    | escaped c h => intro d hd; exact Option.mem_some_iff.mp hd ▸ by decide
    | unicode digits hlength h => intro d hd; exact Option.mem_some_iff.mp hd ▸ by decide
    | braced digits hdigits h => intro d hd; exact Option.mem_some_iff.mp hd ▸ by decide

def quotes : List Char := ['"', '"', '"']

/-- What follows the opening quotes of a block string, with the closing ones and all behind them. -/
inductive BlockText : List Char → List Char → Prop
  | close (rest : List Char) : BlockText (quotes ++ rest) rest
  | escaped (text rest : List Char) (h : BlockText text rest) :
      BlockText ('\\' :: (quotes ++ text)) rest
  | plain (c : Char) (text rest : List Char) (hquotes : ¬ quotes <+: c :: text)
      (hescaped : ¬ '\\' :: quotes <+: c :: text) (h : BlockText text rest) :
      BlockText (c :: text) rest

inductive Token
  | punctuator (text : List Char)
  | name (text : String)
  | number (text : List Char)
  | string (text : List Char)
  | blockString

/-- A text as a sequence of tokens. -/
inductive Lexes : List Char → List Token → Prop
  | nil : Lexes [] []
  | blank (c : Char) (rest : List Char) (tokens : List Token) (hc : c ∈ blanks)
      (h : Lexes rest tokens) : Lexes (c :: rest) tokens
  | comment (text rest : List Char) (tokens : List Token) (htext : ∀ c ∈ text, ¬ LineTerminator c)
      (hrest : Ends (¬ LineTerminator ·) rest) (h : Lexes rest tokens) :
      Lexes ('#' :: (text ++ rest)) tokens
  | punctuator (text rest : List Char) (tokens : List Token) (htext : text ∈ punctuators)
      (h : Lexes rest tokens) : Lexes (text ++ rest) (.punctuator text :: tokens)
  | name (c : Char) (more rest : List Char) (tokens : List Token) (hc : NameStart c)
      (hmore : ∀ c ∈ more, NameContinue c) (hrest : Ends NameContinue rest)
      (h : Lexes rest tokens) :
      Lexes (c :: (more ++ rest)) (.name (String.ofList (c :: more)) :: tokens)
  | number (text rest : List Char) (tokens : List Token) (htext : Number text)
      (hrest : Ends (fun c => NameContinue c ∨ c = '.') rest) (h : Lexes rest tokens) :
      Lexes (text ++ rest) (.number text :: tokens)
  | emptyString (rest : List Char) (tokens : List Token) (hrest : Ends (· = '"') rest)
      (h : Lexes rest tokens) : Lexes ('"' :: '"' :: rest) (.string [] :: tokens)
  | string (text rest : List Char) (tokens : List Token) (hempty : text ≠ [])
      (htext : StringText text) (h : Lexes rest tokens) :
      Lexes ('"' :: (text ++ '"' :: rest)) (.string text :: tokens)
  | blockString (text rest : List Char) (tokens : List Token) (htext : BlockText text rest)
      (h : Lexes rest tokens) : Lexes (quotes ++ text) (.blockString :: tokens)

end Agend.Library.Graphql
