import LiveMarkup.Json.Reader

/-!
# Passing over JSON

A value that nobody asks for is passed over (`skipValue`). It has to be written by the grammar, but
it may be nested to any depth, its numbers may be too large for a double, and escapes in its strings
may stand for halves of surrogate pairs. A number that is cut off is malformed also at the end of
the text.
-/

namespace LiveMarkup

namespace Json

/-- Passes over the digits of a number. -/
def skipDigits (text : List Char) : Reading ReadFault Unit text :=
  match readDigits text with
  | .ok (_, rest) => .ok ((), rest)
  | .error _ => .error .malformed

/-- Passes over an exponent, if there is one. -/
def skipExponent (text : List Char) : Scan ReadFault Unit text :=
  match text with
  | c :: rest =>
    if c = 'e' ∨ c = 'E' then
      ((Reading.tail () c rest).andThen fun _ t _ =>
        (readSign t).andThen fun _ t _ => (skipDigits t).toScan).toScan
    else Scan.pure () (c :: rest)
  | [] => Scan.pure () []

/-- Passes over a number behind its sign. -/
def skipNumber (text : List Char) : Reading ReadFault Unit text :=
  match text with
  | '0' :: rest =>
    (Reading.tail () '0' rest).andThen fun _ t _ =>
      match t with
      | '.' :: behind =>
        ((Reading.tail () '.' behind).andThen fun _ t _ =>
          (skipDigits t).toScan.andThen fun _ t _ => skipExponent t).toScan
      | t => if t.head?.any Char.isDigit then .error .malformed else skipExponent t
  | other =>
    (skipDigits other).andThen fun _ t _ =>
      match t with
      | '.' :: behind =>
        ((Reading.tail () '.' behind).andThen fun _ t _ =>
          (skipDigits t).toScan.andThen fun _ t _ => skipExponent t).toScan
      | t => skipExponent t

/-- Passes over an escape behind its backslash. -/
def skipEscape (text : List Char) : Reading ReadFault Unit text :=
  match text with
  | [] => .error .unexpectedEnd
  | c :: rest =>
    if c = 'u' then ((readHex rest).map fun _ => ()).cons
    else if "\"\\/bfnrt".toList.contains c then .tail () c rest
    else .error .malformed

/-- Passes over the rest of a string behind its opening quote. -/
def skipString (text : List Char) : Reading ReadFault Unit text :=
  match text with
  | [] => .error .unexpectedEnd
  | c :: rest =>
    if c = '"' then .tail () c rest
    else if c = '\\' then
      ((skipEscape rest).andThen fun _ t _ => (skipString t).toScan).cons
    else if c.toNat < 0x20 then .error .malformed
    else (skipString rest).cons
termination_by text.length
decreasing_by
  · simp only [List.length_cons]; omega
  · simp

/-- Passes over a value that is neither an array nor an object and begins with `c`. -/
def skipScalar (c : Char) (rest : List Char) : Reading ReadFault Unit (c :: rest) :=
  if c = '"' then (skipString rest).cons
  else if c = '-' then (skipNumber rest).cons
  else if c.isDigit then skipNumber (c :: rest)
  else (readScalar c rest).map fun _ => ()

mutual

/-- Passes over one value. -/
def skipValue (text : List Char) : Reading ReadFault Unit text :=
  match nextChar text with
  | .error e => .error e
  | .ok (c, rest) =>
    if c = '[' then .past rest.toRest (skipItems true rest.1)
    else if c = '\x7b' then .past rest.toRest (skipFields true rest.1)
    else .past (rest.restore c) (skipScalar c rest.1)
termination_by 2 * text.length
decreasing_by
  all_goals have := rest.2
  all_goals omega

/-- Passes over the items of an array up to its bracket. -/
def skipItems (isFirst : Bool) (text : List Char) : Reading ReadFault Unit text :=
  match nextChar text with
  | .error e => .error e
  | .ok (c, rest) =>
    if c = ']' then .ok ((), rest)
    else match nextElement isFirst c rest with
      | .error e => .error e
      | .ok item =>
        .past item ((skipValue item.1).andThen fun _ t _ => (skipItems false t).toScan)
termination_by 2 * text.length + 1
decreasing_by
  all_goals have := item.2
  all_goals omega

/-- Passes over the fields of an object up to its brace. -/
def skipFields (isFirst : Bool) (text : List Char) : Reading ReadFault Unit text :=
  match nextChar text with
  | .error e => .error e
  | .ok (c, rest) =>
    if c = '\x7d' then .ok ((), rest)
    else match nextElement isFirst c rest with
      | .error e => .error e
      | .ok field =>
        .past field ((nextChar field.1).andThen fun d t _ =>
          if d = '"' then
            ((skipString t).andThen fun _ t _ =>
              ((readColon t).andThen fun _ t _ =>
                ((skipValue t).andThen fun _ t _ =>
                  (skipFields false t).toScan).toScan).toScan).toScan
          else .error .malformed)
termination_by 2 * text.length + 1
decreasing_by
  all_goals have := field.2
  all_goals omega

end

end Json

end LiveMarkup
