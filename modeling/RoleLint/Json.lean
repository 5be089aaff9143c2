/- Values of JSON texts, as far as the wire forms need them: numbers matter only
   if they are natural, texts only if they are sequences of characters.

   Correspondence: `serde_json::Value`, as far as a typed reader looks at it, ↔ `Json`. -/
namespace RoleLint

/-- A JSON value. -/
inductive Json where
  | null
  | bool (b : Bool)
  /-- A number written with digits alone. -/
  | natural (n : Nat)
  | text (s : String)
  | list (items : List Json)
  /-- The members of an object as they come; a key may be repeated. -/
  | object (members : List (String × Json))
  /-- A value that can be read but not used: a number with a sign, a fraction or an
      exponent, or a text or key with half of a surrogate pair. -/
  | other
  deriving Repr, Inhabited

end RoleLint
