import Karr.Api.Spa

/-!
# Served files

Whatever the path of a request and whatever links there are, as long as none on the way
leads to itself: a file that is answered is a file below the directory of the frontend,
and every file there is answered.
-/

set_option autoImplicit false

namespace Karr.Spa

open FileTree Routing

variable {t : Tree} {staticDir : List Name}

end Karr.Spa
