import LgLang.Function

/-!
# The built-in functions
-/

namespace LgLang

/-- The functions known when no registry is given. -/
def Registry.builtin : Registry where
  functions := [
    ⟨"add", ["a", "b"], .atLeast 2, "Returns the sum of the arguments."⟩,
    ⟨"sub", ["a", "b"], .atLeast 2, "Subtracts each following argument from the first."⟩,
    ⟨"mul", ["a", "b"], .atLeast 2, "Returns the product of the arguments."⟩,
    ⟨"div", ["a", "b"], .atLeast 2, "Divides the first argument by each following one."⟩,
    ⟨"max", ["a", "b"], .atLeast 1, "Returns the largest value."⟩,
    ⟨"min", ["a", "b"], .atLeast 1, "Returns the smallest value."⟩,
    ⟨"round", ["number", "precision"], .within 1 2, "Rounds a number to the given precision."⟩,
    ⟨"rand", ["min", "max"], .exactly 2, "Returns a random integer in \x60[min, max)\x60."⟩,
    ⟨"concat", ["value1", "value2"], .atLeast 1, "Concatenates strings or lists."⟩,
    ⟨"length", ["text"], .exactly 1, "Returns the length of a string."⟩,
    ⟨"replace", ["text", "old", "new"], .exactly 3, "Replaces every occurrence of a substring."⟩,
    ⟨"toLower", ["text"], .within 1 2, "Converts a string to lower case."⟩,
    ⟨"toUpper", ["text"], .within 1 2, "Converts a string to upper case."⟩,
    ⟨"trim", ["text"], .exactly 1, "Removes leading and trailing whitespace."⟩,
    ⟨"split", ["text", "separator"], .within 1 2, "Splits a string into a list."⟩,
    ⟨"substring", ["text", "start", "length"], .within 2 3, "Returns part of a string."⟩,
    ⟨"indexOf", ["collection", "value"], .exactly 2, 
      "Returns the index of the first occurrence of a value."⟩,
    ⟨"join", ["list", "separator", "lastSeparator"], .within 2 3, "Joins list items into a string."⟩,
    ⟨"count", ["collection"], .exactly 1, "Returns the number of items in a collection."⟩,
    ⟨"contains", ["collection", "value"], .exactly 2, "Checks whether a collection holds a value."⟩,
    ⟨"first", ["collection"], .exactly 1, "Returns the first item of a collection."⟩,
    ⟨"last", ["collection"], .exactly 1, "Returns the last item of a collection."⟩,
    ⟨"take", ["collection", "count"], .exactly 2, "Returns the first items of a collection."⟩,
    ⟨"skip", ["collection", "count"], .exactly 2, "Drops the first items of a collection."⟩,
    ⟨"createArray", ["value1", "value2"], .atLeast 0, "Builds a list from the arguments."⟩,
    ⟨"foreach", ["collection", "item", "expression"], .exactly 3, "Maps every item of a collection."⟩,
    ⟨"where", ["collection", "item", "condition"], .exactly 3, "Filters a collection."⟩,
    ⟨"if", ["condition", "whenTrue", "whenFalse"], .exactly 3,
      "Returns one of two values depending on a condition."⟩,
    ⟨"not", ["value"], .exactly 1, "Negates a boolean."⟩,
    ⟨"and", ["a", "b"], .atLeast 1, "True when every argument is true."⟩,
    ⟨"or", ["a", "b"], .atLeast 1, "True when any argument is true."⟩,
    ⟨"equals", ["a", "b"], .exactly 2, "Checks two values for equality."⟩,
    ⟨"exists", ["value"], .exactly 1, "True when the value is not null."⟩,
    ⟨"empty", ["value"], .exactly 1, "True when the value is null, empty or has no items."⟩,
    ⟨"coalesce", ["value1", "value2"], .atLeast 1, "Returns the first non-null argument."⟩,
    ⟨"isMatch", ["text", "pattern"], .exactly 2, "Tests a string against a regular expression."⟩,
    ⟨"string", ["value"], .within 1 2, "Converts a value to a string."⟩,
    ⟨"int", ["value"], .exactly 1, "Converts a value to an integer."⟩,
    ⟨"float", ["value"], .exactly 1, "Converts a value to a floating point number."⟩,
    ⟨"bool", ["value"], .exactly 1, "Converts a value to a boolean."⟩,
    ⟨"json", ["value"], .exactly 1, "Parses a JSON string."⟩,
    ⟨"utcNow", ["format"], .within 0 2, "Returns the current timestamp."⟩,
    ⟨"formatDateTime", ["timestamp", "format"], .within 1 3, "Formats a timestamp."⟩,
    ⟨"template", ["name", "args"], .atLeast 1, "Evaluates a template by name."⟩,
    ⟨"expandText", ["text"], .exactly 1, "Evaluates plain text containing expressions."⟩]

end LgLang
