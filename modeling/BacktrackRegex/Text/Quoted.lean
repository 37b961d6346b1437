import BacktrackRegex.Text.Unprintable

/-!
# Quoted text

How log messages show a text: in double quotes, with a backslash before a quote or a backslash,
short escapes for NUL, tab, line feed and carriage return, and the code point in braces for every
other character without a visible form.

* `quote` — a text in quotes;
* `quoteEntries` — a list of captures, each entry either present or absent.
-/

set_option autoImplicit false

namespace BacktrackRegex

/-- The escape of a character by its code point: `\u` and lower-case hexadecimal digits in braces. -/
def codePointEscape (c : Char) : List Char :=
  ['\\', 'u', '\x7b'] ++ Nat.toDigits 16 c.toNat ++ ['\x7d']

/-- The written form of one character inside quotes. -/
def quoteChar (c : Char) : List Char :=
  match c with
  | '\x00' => ['\\', '0']
  | '\t' => ['\\', 't']
  | '\n' => ['\\', 'n']
  | '\r' => ['\\', 'r']
  | '"' => ['\\', '"']
  | '\\' => ['\\', '\\']
  | c =>
    if c.toNat < 0x20 || c.toNat = 0x7f then codePointEscape c
    else if c.toNat < 0x7f then [c]
    else if isUnprintable c then codePointEscape c
    else [c]

/-- A text in double quotes. -/
def quote (text : String) : String :=
  String.ofList ('"' :: text.toList.flatMap quoteChar ++ ['"'])

/-- One capture: its quoted text, or the word for an absent one. -/
def quoteEntry : Option String → String
  | some text => "Some(" ++ quote text ++ ")"
  | none => "None"

/-- A list of captures in square brackets. -/
def quoteEntries (entries : List (Option String)) : String :=
  "[" ++ ", ".intercalate (entries.map quoteEntry) ++ "]"

end BacktrackRegex
