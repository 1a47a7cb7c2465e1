/-!
# List functions of the library

The list comes first, so that calls chain from left to right. Accumulating clauses keep the
recursion in tail position.
-/
namespace Song.Library

def listLines : List String :=
  [
    "head([x | _]) = x",
    "tail([_ | xs]) = xs",
    "",
    "isEmpty([]) = true",
    "isEmpty(_) = false",
    "",
    "reverse([], acc) = acc",
    "reverse([x | xs], acc) = reverse(xs, [x | acc])",
    "reverse(xs) = reverse(xs, [])",
    "",
    "length([], n) = n",
    "length([_ | xs], n) = length(xs, n + 1)",
    "length(xs) = length(xs, 0)",
    "",
    "last([x]) = x",
    "last([_ | xs]) = last(xs)",
    "",
    "nth([x | _], 0) = x",
    "nth([_ | xs], n) = nth(xs, n - 1)",
    "",
    "fold([], acc, _) = acc",
    "fold([x | xs], acc, f) = fold(xs, f(acc, x), f)",
    "",
    "sum(xs) = fold(xs, 0, Fn(a, b) = a + b)",
    "product(xs) = fold(xs, 1, Fn(a, b) = a * b)",
    "concat(xss) = fold(xss, [], Fn(a, b) = a + b)",
    "",
    "map([], _, acc) = reverse(acc)",
    "map([x | xs], f, acc) = map(xs, f, [f(x) | acc])",
    "map(xs, f) = map(xs, f, [])",
    "",
    "filter([], _, acc) = reverse(acc)",
    "filter([x | xs], p, acc) When p(x) = filter(xs, p, [x | acc])",
    "filter([_ | xs], p, acc) = filter(xs, p, acc)",
    "filter(xs, p) = filter(xs, p, [])",
    "",
    "all([], _) = true",
    "all([x | xs], p) When p(x) = all(xs, p)",
    "all(_, _) = false",
    "",
    "any([], _) = false",
    "any([x | _], p) When p(x) = true",
    "any([_ | xs], p) = any(xs, p)",
    "",
    "contains([], _) = false",
    "contains([x | _], y) When x Eq y = true",
    "contains([_ | xs], y) = contains(xs, y)",
    "",
    "range(from, to, acc) When from >= to = reverse(acc)",
    "range(from, to, acc) = range(from + 1, to, [from | acc])",
    "range(from, to) = range(from, to, [])",
    "",
    "take(0, _, acc) = reverse(acc)",
    "take(_, [], acc) = reverse(acc)",
    "take(n, [x | xs], acc) = take(n - 1, xs, [x | acc])",
    "take(n, xs) = take(n, xs, [])",
    "",
    "drop(0, xs) = xs",
    "drop(_, []) = []",
    "drop(n, [_ | xs]) = drop(n - 1, xs)",
    "",
    "zip([], _, acc) = reverse(acc)",
    "zip(_, [], acc) = reverse(acc)",
    "zip([x | xs], [y | ys], acc) = zip(xs, ys, [[x, y] | acc])",
    "zip(xs, ys) = zip(xs, ys, [])"
  ]

end Song.Library
