/-
# ClassWeave.Rewrite.Handlers -- one exception table out of two

The first row of an exception table that covers an instruction takes the exception,
so a row for an inner range has to stand before those for the ranges around it.
Rows of injected code are put one by one into the table of the method, each before
the first row whose range strictly contains its own, or else at the end.  The rows
that were there keep their order.
-/
import ClassWeave.Code.Attribute

set_option autoImplicit false

namespace ClassWeave

namespace HandlerEntry

/-- Whether the first range reaches from before or at the start of the second to its end or
beyond, and is not the same range. -/
def strictlyContains (outer inner : HandlerEntry) : Bool :=
  outer.start ≤ inner.start && inner.stop ≤ outer.stop
    && !(outer.start == inner.start && outer.stop == inner.stop)

def insertRow (table : List HandlerEntry) (row : HandlerEntry) : List HandlerEntry :=
  match table with
  | [] => [row]
  | first :: rest =>
    if first.strictlyContains row then row :: first :: rest else first :: insertRow rest row

def merge (original injected : List HandlerEntry) : List HandlerEntry :=
  injected.foldl insertRow original

end HandlerEntry

end ClassWeave
