namespace LivePage

def version : String := "0.2.0"

end LivePage
