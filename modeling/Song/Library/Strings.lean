/-!
# String functions of the library

A string is a list of characters, so the list functions apply to it.
-/
namespace Song.Library

def stringLines : List String :=
  [
    "isDigit(c) = c >= '0' And c <= '9'",
    "isUpper(c) = c >= 'A' And c <= 'Z'",
    "isLower(c) = c >= 'a' And c <= 'z'",
    "isSpace(c) = c Eq ' ' Or c Eq '\\t' Or c Eq '\\n' Or c Eq '\\r'",
    "",
    "upper(c) When isLower(c) = character(scalar(c) - 32)",
    "upper(c) = c",
    "",
    "lower(c) When isUpper(c) = character(scalar(c) + 32)",
    "lower(c) = c",
    "",
    "toUpper(s) = map(s, upper)",
    "toLower(s) = map(s, lower)",
    "",
    "trimStart([c | cs]) When isSpace(c) = trimStart(cs)",
    "trimStart(s) = s",
    "trimEnd(s) = reverse(trimStart(reverse(s)))",
    "trim(s) = trimEnd(trimStart(s))",
    "",
    "join([], _) = \"\"",
    "join([s], _) = s",
    "join([s | rest], sep) = s + sep + join(rest, sep)",
    "",
    "split([], _, word, acc) = reverse([reverse(word) | acc])",
    "split([c | cs], sep, word, acc) When c Eq sep = split(cs, sep, \"\", [reverse(word) | acc])",
    "split([c | cs], sep, word, acc) = split(cs, sep, [c | word], acc)",
    "split(s, sep) = split(s, sep, \"\", [])",
    "",
    "words(s) = split(s, ' ').filter(Fn(w) = Not isEmpty(w))",
    "lines(s) = split(s, '\\n')",
    "",
    "repeat(_, 0) = \"\"",
    "repeat(s, n) = s + repeat(s, n - 1)",
    "",
    "startsWith(_, []) = true",
    "startsWith([c | cs], [c | ps]) = startsWith(cs, ps)",
    "startsWith(_, _) = false"
  ]

end Song.Library
