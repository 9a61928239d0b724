import SmallLang.Error
import SmallLang.Source.Line
import SmallLang.Text.Blank

/-!
# Error reports

An error as text: a headline, the file, and an excerpt with a caret below the place.

```text
Error: TypeMatchError (Expected type `string`, received `float`)
-> main.lang
   |
20 | let a: string = 43 / 2
   | ----------------^
```
-/

set_option autoImplicit false

namespace SmallLang

/-- The name of the cause, and the tip in parentheses if there is one. -/
def Error.headline (error : Error) : String :=
  match error.cause.tip? with
  | none => "Error: " ++ error.cause.name ++ "\n"
  | some tip => "Error: " ++ error.cause.name ++ " (" ++ tip ++ ")\n"

def Text.run (length : Nat) (c : Char) : String := String.ofList (List.replicate length c)

/-- The line of a place, numbered and without surrounding white space, above a caret. The
caret counts bytes; the tabs and spaces in front of the line take none. -/
def Source.Place.excerpt (place : Source.Place) : String :=
  let number := toString place.number
  let margin := Text.run (number.length + 1) ' ' ++ "|"
  let indent := (place.text.takeWhile fun c => c == ' ' || c == '\t').length
  let shown := String.ofList (Text.trim (place.text.drop indent))
  margin ++ "\n" ++
    number ++ " | " ++ shown ++ "\n" ++
    margin ++ " " ++ Text.run (place.column - indent) '-' ++ "^\n"

/-- The full report against the text of the file that the error names. An error without a
place is its headline, and one past the end of the text has no excerpt. -/
def Error.report (error : Error) (source : String) : String :=
  if error.position.isNull then error.headline
  else
    error.headline ++ "-> " ++ error.position.file ++ "\n" ++
      match Source.place? source error.position.offset with
      | none => ""
      | some place => place.excerpt

end SmallLang
