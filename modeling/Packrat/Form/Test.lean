/-!
# Tests as data

Descriptions of tests on characters and on texts, and what they accept. All classes here are those
of ASCII.
-/

namespace Packrat

/-- A test on a character. -/
inductive CharTest where
  /-- An uppercase letter. -/
  | upper
  /-- A lowercase letter. -/
  | lower
  /-- A letter or a digit. -/
  | alphanumeric
  /-- Any character. -/
  | always
  /-- This character. -/
  | is (c : Char)
  /-- A character of this text. -/
  | among (set : String)
  /-- A character from `low` to `high`, both included. -/
  | between (low high : Char)
  /-- A character that does not pass. -/
  | not (t : CharTest)
  /-- A character that passes all tests. -/
  | all (ts : List CharTest)
  /-- A character that passes one of the tests. -/
  | any (ts : List CharTest)

namespace CharTest

mutual

/-- Whether a character passes the test. -/
def holds (c : Char) : CharTest → Bool
  | .upper => c.isUpper
  | .lower => c.isLower
  | .alphanumeric => c.isAlphanum
  | .always => true
  | .is d => c == d
  | .among set => set.toList.contains c
  | .between low high => low ≤ c && c ≤ high
  | .not t => !t.holds c
  | .all ts => allHold c ts
  | .any ts => someHolds c ts

/-- Whether a character passes every test of a list. -/
def allHold (c : Char) : List CharTest → Bool
  | [] => true
  | t :: ts => t.holds c && allHold c ts

/-- Whether a character passes a test of a list. -/
def someHolds (c : Char) : List CharTest → Bool
  | [] => false
  | t :: ts => t.holds c || someHolds c ts

end

end CharTest

/-- A test on a text. -/
inductive TextTest where
  /-- Any text. -/
  | always
  /-- This text. -/
  | equals (s : String)
  /-- This text up to the case of ASCII letters. -/
  | equalsIgnoringCase (s : String)
  /-- A text that starts with this one. -/
  | startsWith (s : String)
  /-- A text that ends with this one. -/
  | endsWith (s : String)
  /-- A text whose characters all pass. -/
  | each (t : CharTest)
  /-- A text that does not pass. -/
  | not (t : TextTest)

/-- Whether a text passes the test. -/
def TextTest.holds (text : String) : TextTest → Bool
  | .always => true
  | .equals s => text == s
  | .equalsIgnoringCase s => text.toList.map Char.toLower == s.toList.map Char.toLower
  | .startsWith s => s.toList.isPrefixOf text.toList
  | .endsWith s => s.toList.isSuffixOf text.toList
  | .each t => text.toList.all t.holds
  | .not t => !t.holds text

end Packrat
