/-!
Names of the standard library and the headers that declare them.
-/

namespace CppRefactor

def standardHeaders : List (String × String) := [
  ("string", "string"), ("wstring", "string"), ("to_string", "string"),
  ("string_view", "string_view"), ("vector", "vector"), ("array", "array"), ("deque", "deque"),
  ("list", "list"), ("forward_list", "forward_list"), ("map", "map"), ("multimap", "map"),
  ("set", "set"), ("multiset", "set"), ("unordered_map", "unordered_map"),
  ("unordered_set", "unordered_set"), ("queue", "queue"), ("priority_queue", "queue"),
  ("stack", "stack"), ("bitset", "bitset"), ("pair", "utility"), ("move", "utility"),
  ("swap", "utility"), ("forward", "utility"), ("tuple", "tuple"), ("optional", "optional"),
  ("variant", "variant"), ("any", "any"), ("function", "functional"), ("unique_ptr", "memory"),
  ("shared_ptr", "memory"), ("weak_ptr", "memory"), ("make_unique", "memory"),
  ("make_shared", "memory"), ("cout", "iostream"), ("cerr", "iostream"), ("cin", "iostream"),
  ("endl", "ostream"), ("ostream", "ostream"), ("istream", "istream"), ("stringstream", "sstream"),
  ("ostringstream", "sstream"), ("istringstream", "sstream"), ("ifstream", "fstream"),
  ("ofstream", "fstream"), ("fstream", "fstream"), ("sort", "algorithm"), ("find", "algorithm"),
  ("find_if", "algorithm"), ("min", "algorithm"), ("max", "algorithm"), ("accumulate", "numeric"),
  ("iota", "numeric"), ("numeric_limits", "limits"), ("size_t", "cstddef"),
  ("nullptr_t", "cstddef"), ("int8_t", "cstdint"), ("int16_t", "cstdint"), ("int32_t", "cstdint"),
  ("int64_t", "cstdint"), ("uint8_t", "cstdint"), ("uint16_t", "cstdint"), ("uint32_t", "cstdint"),
  ("uint64_t", "cstdint"), ("thread", "thread"), ("mutex", "mutex"), ("lock_guard", "mutex"),
  ("unique_lock", "mutex"), ("condition_variable", "condition_variable"), ("atomic", "atomic"),
  ("exception", "exception"), ("runtime_error", "stdexcept"), ("logic_error", "stdexcept"),
  ("invalid_argument", "stdexcept"), ("out_of_range", "stdexcept"),
  ("initializer_list", "initializer_list"), ("regex", "regex")]

/-- The header of a name `std::name`. -/
def standardHeader? : List String → Option String
  | ["std", name] => standardHeaders.lookup name
  | _ => none

end CppRefactor
